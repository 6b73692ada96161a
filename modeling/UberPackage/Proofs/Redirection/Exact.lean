/-
  Redirecting edits the matching literals and nothing else.

  The redirections of a text (`Layout.redirections`) are the references whose specifier resolves.
  Each calls for two changes (`Redirection.changes`): new characters between the quotes, and a note
  behind the statement.  The shape of the tree keeps all these changes apart
  (`Layout.changes_apart`), so they are the changes of a script, and redirecting gives its
  result (`Layout.redirectTree_exact`).
-/
import UberPackage.Proofs.Redirection.Script
import UberPackage.Proofs.Text.Chars
import UberPackage.Proofs.TypeScript.Reference

namespace UberPackage

open TypeScript

/-! ## Redirections and their changes -/

namespace Redirection

/-- The changes that a redirection makes in a text: the literal becomes the new specifier in the
same quotes, and a note is put behind the statement. -/
def changes (cs : List Char) (r : Redirection) : List Change :=
  let stop := r.reference.statement.stop
  [⟨r.reference.literal.start, r.reference.literal.chars cs, r.literal.toChars⟩,
    ⟨stop, [], (note r.quoted (Utf8.encode cs) stop).toChars⟩]

end Redirection

namespace Layout

/-- The redirections of a text: its references whose specifier resolves. -/
def redirections (layout : Layout) (cs : List Char) (tree : Node) (directory : Path) :
    List Redirection :=
  (moduleReferences (Utf8.encode cs) tree).filterMap fun r =>
    let quoted := Text.ofChars (r.literal.chars cs)
    let specifier := Redirection.unquoted quoted
    (layout.resolve? specifier directory).map fun replacement =>
      ⟨r, quoted, specifier, replacement⟩

end Layout

namespace Redirection

variable {layout : Layout} {cs : List Char} {tree : Node} {directory : Path}

/-- A redirection is that of a reference, and its literal stands as written. -/
theorem mem_redirections {r : Redirection} (h : r ∈ layout.redirections cs tree directory) :
    r.reference ∈ moduleReferences (Utf8.encode cs) tree ∧
      r.quoted = Text.ofChars (r.reference.literal.chars cs) := by
  obtain ⟨t, ht, h⟩ := List.mem_filterMap.mp h
  obtain ⟨p, -, rfl⟩ := Option.map_eq_some_iff.mp h
  exact ⟨ht, rfl⟩

/-- Reading the references gives the redirections; no literal fails to be text. -/
theorem filterMap_ofReference? (h : tree.Shaped cs) :
    (moduleReferences (Utf8.encode cs) tree).filterMap
      (ofReference? layout directory (Utf8.encode cs)) =
      (layout.redirections cs tree directory).map .ok := by
  rw [Layout.redirections, List.map_filterMap]
  refine List.filterMap_congr fun r hr => ?_
  rw [ofReference?, h.bytes_eq (literal_string h hr).2.1, Utf8.text?_encode, Option.map_map]
  rfl

theorem isChars_note {quoted : Text} (h : quoted.IsChars) (source : Bytes) (position : Nat) :
    (note quoted source position).IsChars := by
  have hs := Text.isChars_ofString
  rw [note]
  split
  · exact Text.isChars_append.mpr ⟨Text.isChars_append.mpr
      ⟨Text.isChars_append.mpr ⟨hs _, hs _⟩, hs _⟩, h⟩
  · exact Text.isChars_append.mpr ⟨Text.isChars_append.mpr ⟨Text.isChars_append.mpr
      ⟨Text.isChars_append.mpr ⟨hs _, hs _⟩, hs _⟩, h⟩, hs _⟩

theorem toChars_note_ne_nil (quoted : Text) (source : Bytes) (position : Nat) :
    (note quoted source position).toChars ≠ [] := by
  rw [note]
  split <;> exact List.cons_ne_nil _ _

section Shaped

variable (h : tree.Shaped cs) {r : Redirection} (hr : r ∈ layout.redirections cs tree directory)
include h hr

/-- The quote of a redirection's literal. -/
theorem exists_quote :
    ∃ quote : Char, r.literal = .char quote :: (r.replacement ++ [.char quote]) := by
  obtain ⟨href, hq⟩ := mem_redirections hr
  obtain ⟨-, hocc, hstr⟩ := literal_string h href
  obtain ⟨quote, inner, hc⟩ := h.quoted _ hocc hstr
  refine ⟨quote, ?_⟩
  rw [literal, hq, hc]
  rfl

theorem isChars_literal : r.literal.IsChars ↔ r.replacement.IsChars := by
  obtain ⟨quote, hl⟩ := exists_quote h hr
  have hq : Text.IsChars [.char quote] := Text.isChars_ofChars [quote]
  rw [hl, show Code.char quote :: (r.replacement ++ [.char quote]) =
    [.char quote] ++ (r.replacement ++ [.char quote]) from rfl, Text.isChars_append,
    Text.isChars_append]
  exact ⟨fun h => h.2.1, fun h => ⟨hq, h, hq⟩⟩

theorem toChars_literal_ne_nil : r.literal.toChars ≠ [] := by
  obtain ⟨quote, hl⟩ := exists_quote h hr
  rw [hl]
  exact List.cons_ne_nil _ _

/-- The edits of a redirection are its changes, unless the new specifier has no bytes. -/
theorem edits_eq : r.edits (Utf8.encode cs) =
    if r.replacement.IsChars then .ok ((r.changes cs).map Change.edit)
    else .error .unencodable := by
  obtain ⟨href, hq⟩ := mem_redirections hr
  obtain ⟨a, b, -, ha, hab⟩ := h.exists_chars (literal_string h href).2.1
  have hnote :=
    isChars_note (hq ▸ Text.isChars_ofChars _) (Utf8.encode cs) r.reference.statement.stop
  rw [edits, Text.encode?_of_isChars hnote]
  by_cases hp : r.replacement.IsChars
  · rw [if_pos hp, Text.encode?_of_isChars ((isChars_literal h hr).mpr hp)]
    rw [Utf8.size_append, ha] at hab
    simp only [changes, List.map_cons, List.map_nil, Change.edit, Change.stop, hab, Utf8.size,
      Nat.add_zero]
    rfl
  · rw [if_neg hp, Text.encode?_of_not_isChars fun hl => hp ((isChars_literal h hr).mp hl)]

/-- The changes of a redirection fit the text. -/
theorem changes_fit : ∀ c ∈ r.changes cs, c.Fits cs := by
  obtain ⟨href, -⟩ := mem_redirections hr
  intro c hc
  rcases List.mem_pair.mp hc with rfl | rfl
  · obtain ⟨a, b, he, ha, -⟩ := h.exists_chars (literal_string h href).2.1
    exact ⟨a, b, he, ha⟩
  · obtain ⟨a, b, he, ha⟩ := (h.boundaries _ (Node.occurs_of_mem_outer (statement_outer h href))).2
    exact ⟨a, b, by rw [List.append_nil]; exact he, ha⟩

/-- Every change puts something in. -/
theorem changes_new : ∀ c ∈ r.changes cs, c.new ≠ [] := by
  intro c hc
  rcases List.mem_pair.mp hc with rfl | rfl
  · exact toChars_literal_ne_nil h hr
  · exact toChars_note_ne_nil _ _ _

theorem stop_literal : r.reference.literal.start + Utf8.size (r.reference.literal.chars cs) =
    r.reference.literal.stop := by
  obtain ⟨a, b, -, ha, hab⟩ := h.exists_chars (literal_string h (mem_redirections hr).1).2.1
  rw [← ha, ← hab, Utf8.size_append]

end Shaped

/-- The edits that are collected from redirections with characters for specifiers. -/
theorem collect_ok {source : Bytes} {rs : List Redirection} (file : Text)
    (h : ∀ r ∈ rs, r.edits source = .ok ((r.changes cs).map Change.edit)) :
    (collect source file (rs.map .ok)).2 = .ok ((rs.flatMap (changes cs)).map Change.edit) := by
  induction rs with
  | nil => rfl
  | cons r rs ih =>
    rw [List.map_cons, collect, h r List.mem_cons_self]
    dsimp only
    rw [ih fun t ht => h t (List.mem_cons_of_mem _ ht), List.flatMap_cons, List.map_append]
    rfl

theorem collect_error {source : Bytes} {rs : List Redirection} (file : Text)
    (h : ∀ r ∈ rs, r.edits source = .error .unencodable ∨ ∃ es, r.edits source = .ok es)
    (hr : ∃ r ∈ rs, r.edits source = .error .unencodable) :
    (collect source file (rs.map .ok)).2 = .error .unencodable := by
  induction rs with
  | nil => obtain ⟨r, hr, -⟩ := hr; exact absurd hr List.not_mem_nil
  | cons r rs ih =>
    rw [List.map_cons, collect]
    rcases h r List.mem_cons_self with he | ⟨es, he⟩
    · rw [he]
    · rw [he]
      obtain ⟨t, ht, hte⟩ := hr
      have ht' : t ∈ rs := (List.mem_cons.mp ht).resolve_left fun h => by
        rw [h, he] at hte
        exact absurd hte (by simp)
      dsimp only
      rw [ih (fun u hu => h u (List.mem_cons_of_mem _ hu)) ⟨t, ht', hte⟩]
      rfl

end Redirection

namespace Layout

section Shaped

variable {cs : List Char} {tree : Node}

/-- The changes of all redirections keep apart. -/
theorem changes_apart (layout : Layout) (directory : Path) (h : tree.Shaped cs) :
    ((layout.redirections cs tree directory).flatMap (Redirection.changes cs)).Pairwise
      Change.Apart := by
  have houter : ∀ r ∈ layout.redirections cs tree directory,
      ∀ t ∈ layout.redirections cs tree directory,
      r.reference.statement.stop ≤ t.reference.literal.start ∨
        t.reference.literal.stop ≤ r.reference.statement.stop := fun r hr t ht =>
    h.outer_apart (statement_outer h (Redirection.mem_redirections hr).1)
      (literal_string h (Redirection.mem_redirections ht).1).1
  have hlits : (layout.redirections cs tree directory).Pairwise fun r t =>
      r.reference.literal.Apart t.reference.literal := by
    rw [redirections, List.pairwise_filterMap]
    refine (literals_apart h).imp fun {a b} hab r hr t ht => ?_
    obtain ⟨p, -, rfl⟩ := Option.map_eq_some_iff.mp hr
    obtain ⟨q, -, rfl⟩ := Option.map_eq_some_iff.mp ht
    exact hab
  rw [List.pairwise_flatMap]
  refine ⟨fun r hr => ?_, hlits.imp_of_mem fun {r t} hr ht hrt c hc d hd => ?_⟩
  · refine List.pairwise_pair.mpr ?_
    have ho := houter r hr r hr
    rw [Change.Apart, Change.stop, Redirection.stop_literal h hr]
    exact ho.symm
  · have hrs := Redirection.stop_literal h hr
    have hts := Redirection.stop_literal h ht
    have hor := houter r hr t ht
    have hot := houter t ht r hr
    rw [Node.Apart] at hrt
    rcases List.mem_pair.mp hc with rfl | rfl <;> rcases List.mem_pair.mp hd with rfl | rfl <;>
      simp only [Change.Apart, Change.stop, Utf8.size, Nat.add_zero, hrs, hts] <;> omega

/-- Redirecting along a shaped tree applies the changes of all redirections. -/
theorem redirectTree_eq (layout : Layout) (directory : Path) (file : Text) (h : tree.Shaped cs) :
    (layout.redirectTree (Utf8.encode cs) tree directory file).2 =
      if ∀ r ∈ layout.redirections cs tree directory, r.replacement.IsChars then
        .ok (Edit.applyAll (((layout.redirections cs tree directory).flatMap
          (Redirection.changes cs)).map Change.edit) (Utf8.encode cs))
      else .error .unencodable := by
  rw [redirectTree, Redirection.filterMap_ofReference? h]
  dsimp only
  have hedits : ∀ r ∈ layout.redirections cs tree directory, r.edits (Utf8.encode cs) =
      if r.replacement.IsChars then .ok ((r.changes cs).map Change.edit) else .error .unencodable :=
    fun r hr => Redirection.edits_eq h hr
  split
  · next hall =>
    rw [Redirection.collect_ok file fun r hr => by rw [hedits r hr, if_pos (hall r hr)]]
    rfl
  · next hall =>
    obtain ⟨r, hr, hp⟩ : ∃ r ∈ layout.redirections cs tree directory, ¬ r.replacement.IsChars := by
      simpa using hall
    rw [Redirection.collect_error file (fun t ht => ?_) ⟨r, hr, by rw [hedits r hr, if_neg hp]⟩]
    · rfl
    · rw [hedits t ht]
      split
      · exact Or.inr ⟨_, rfl⟩
      · exact Or.inl rfl

/-- When damage is put up with, a text is redirected along its own tree. -/
theorem redirect_eq (layout : Layout) (cs : List Char) (directory : Path) (file : Text) :
    (layout.redirect false (Text.ofChars cs) directory file).2 =
      match (layout.redirectTree (Utf8.encode cs) (TypeScript.parse cs) directory file).2 with
      | .ok bytes => (Utf8.text? bytes).elim (.error .undecodable) .ok
      | .error e => .error e := by
  have hchars : (layout.redirectChars false cs directory file).2 =
      (layout.redirectTree (Utf8.encode cs) (TypeScript.parse cs) directory file).2 := by
    unfold redirectChars
    dsimp only
    rw [Bool.and_false, if_neg Bool.false_ne_true]
  rw [redirect, Text.chars?_ofChars]
  dsimp only
  rw [hchars]
  cases (layout.redirectTree (Utf8.encode cs) (TypeScript.parse cs) directory file).2 with
  | error e => rfl
  | ok bytes =>
    dsimp only [bind, Except.bind]
    cases Utf8.text? bytes with
    | none => rfl
    | some t => rfl

/-- **Redirecting edits the matching literals and nothing else.**  Over any shaped tree, the
result is that of a script over the text whose changes are exactly those of the redirections: the
literal in its quotes and one note behind the statement for each.  Undoing them gives the
text back, and a text without redirections stays as it is.  The only way to fail is a specifier that
has no bytes. -/
theorem redirectTree_exact (layout : Layout) (cs : List Char) (tree : Node) (directory : Path)
    (file : Text) (h : tree.Shaped cs) :
    if ∀ r ∈ layout.redirections cs tree directory, r.replacement.IsChars then
      ∃ s : Script, s.before = cs ∧
        s.changes.Perm ((layout.redirections cs tree directory).flatMap (Redirection.changes cs)) ∧
        (layout.redirectTree (Utf8.encode cs) tree directory file).2 = .ok (Utf8.encode s.after) ∧
        (TypeScript.parse cs = tree →
          (layout.redirect false (Text.ofChars cs) directory file).2 = .ok (Text.ofChars s.after)) ∧
        Edit.applyAll s.inverse.edits (Utf8.encode s.after) = Utf8.encode cs ∧
        (layout.redirections cs tree directory = [] → s.after = cs)
    else
      (layout.redirectTree (Utf8.encode cs) tree directory file).2 = .error .unencodable ∧
        (TypeScript.parse cs = tree →
          (layout.redirect false (Text.ofChars cs) directory file).2 = .error .unencodable) := by
  have hresult := redirectTree_eq layout directory file h
  split
  · next hall =>
    rw [if_pos hall] at hresult
    have hfit : ∀ c ∈ (layout.redirections cs tree directory).flatMap (Redirection.changes cs),
        c.Fits cs := fun c hc => by
      obtain ⟨r, hr, hc⟩ := List.mem_flatMap.mp hc
      exact Redirection.changes_fit h hr c hc
    obtain ⟨s, hs, hperm, happly⟩ :=
      Script.exists_of_apart cs _ hfit (changes_apart layout directory h)
    rw [happly] at hresult
    have hnew : ∀ c ∈ s.changes, c.new ≠ [] := fun c hc => by
      obtain ⟨r, hr, hc⟩ := List.mem_flatMap.mp (hperm.mem_iff.mp hc)
      exact Redirection.changes_new h hr c hc
    refine ⟨s, hs, hperm, hresult, fun htree => ?_, ?_, fun hnone => ?_⟩
    · rw [redirect_eq, htree, hresult]
      dsimp only
      rw [Utf8.text?_encode]
      rfl
    · rw [Script.applyAll_inverse hnew, hs]
    · rw [hnone, List.flatMap_nil] at hperm
      rw [Script.after_of_changes_eq_nil hperm.eq_nil, hs]
  · next hall =>
    rw [if_neg hall] at hresult
    refine ⟨hresult, fun htree => ?_⟩
    rw [redirect_eq, htree, hresult]

end Shaped

/-! ## An exported require and an import -/

namespace Sample

def text : List Char := "export import x=require('é/b')\nimport 'é';".toList

def phrase (p : Phrase) (start stop : Nat) (children : List Node) : Node :=
  .mk { kind := .phrase p, start, stop } children

/-- The grammar reads the exported require as two statements. -/
def tree : Node :=
  phrase .program 0 44
    [phrase .exportStatement 0 23
      [.leaf (.word "export") 0 6,
        phrase .importAlias 7 23
          [.leaf (.word "import") 7 13, .leaf .identifier 14 15, .leaf (.mark "=") 15 16,
            .leaf .identifier 16 23]],
      phrase .expressionStatement 23 31
        [phrase .parenthesizedExpression 23 31
          [.leaf (.mark "(") 23 24, phrase .string 24 30 [], .leaf (.mark ")") 30 31]],
      phrase .importStatement 32 44
        [.leaf (.word "import") 32 38, (phrase .string 39 43 []).withRole (some .source),
          .leaf (.mark ";") 43 44]]

def layout : Layout where
  libraries := [⟨⟨[("name", .str "é")]⟩, ⟨.slash, ["lib"]⟩, "e"⟩]
  root := ⟨.slash, ["out"]⟩

/-- A directory of the merged tree, beside that of the library. -/
def directory : Path := ⟨.slash, ["out", "f"]⟩

end Sample

theorem redirectTree_exact_sample :
    Sample.tree.Shaped Sample.text ∧
      ∃ s : Script, s.before = Sample.text ∧
        s.changes.Perm [⟨24, "'é/b'".toList, "'../e/b'".toList⟩,
          ⟨31, [], " // Automatically re-written from 'é/b'".toList⟩,
          ⟨39, "'é'".toList, "'../e/index'".toList⟩,
          ⟨44, [], " // Automatically re-written from 'é'".toList⟩] ∧
        (Sample.layout.redirectTree (Utf8.encode Sample.text) Sample.tree Sample.directory
          noFile).2 = .ok (Utf8.encode s.after) ∧
        Edit.applyAll s.inverse.edits (Utf8.encode s.after) = Utf8.encode Sample.text := by
  have hshaped : Sample.tree.Shaped Sample.text := Node.shaped_of_check (by decide)
  have h := redirectTree_exact Sample.layout Sample.text Sample.tree Sample.directory noFile hshaped
  rw [if_pos (by decide +kernel)] at h
  obtain ⟨s, hs, hperm, hresult, -, hundo, -⟩ := h
  refine ⟨hshaped, s, hs, ?_, hresult, hundo⟩
  have hchanges : (Sample.layout.redirections Sample.text Sample.tree Sample.directory).flatMap
      (Redirection.changes Sample.text) = [⟨24, "'é/b'".toList, "'../e/b'".toList⟩,
          ⟨31, [], " // Automatically re-written from 'é/b'".toList⟩,
          ⟨39, "'é'".toList, "'../e/index'".toList⟩,
          ⟨44, [], " // Automatically re-written from 'é'".toList⟩] := by decide +kernel
  rwa [hchanges] at hperm

end Layout

end UberPackage
