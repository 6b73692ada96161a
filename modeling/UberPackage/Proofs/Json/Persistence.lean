/-
  Documents that are kept in files.

  A document is storable (`Json.Storable`) when it holds no floating-point numbers, its integers are
  short enough, its strings and the names of its fields are made of characters, and the names of the
  fields of each object are distinct.  Writing one fails with the disk alone, and whoever reads the
  file afterwards has the document again (`Storable.persists`); so a document is written in the same
  way again once it has been written and read (`Json.reprint`).
-/
import UberPackage.Proofs.Act.Failure
import UberPackage.Proofs.Disk.Success
import UberPackage.Proofs.Json.RoundTrip
import UberPackage.Proofs.Text.Chars

namespace UberPackage.Json

open Act

/-! ## Storable documents -/

/-- The document can be kept in a file. -/
inductive Storable : Json → Prop where
  | null : Storable null
  | bool (b : Bool) : Storable (bool b)
  | int {i : Int} (h : IsShort i) : Storable (int i)
  | str {t : Text} (h : t.IsChars) : Storable (str t)
  | arr {vs : List Json} (h : ∀ v ∈ vs, Storable v) : Storable (arr vs)
  | obj {fs : Fields} (hk : fs.keys.Nodup) (hc : ∀ k ∈ fs.keys, Text.IsChars k)
      (h : ∀ f ∈ fs, Storable f.2) : Storable (obj fs)

theorem Storable.readable {v : Json} (h : Storable v) : Readable v := by
  induction h with
  | null => exact .null
  | bool b => exact .bool b
  | int h => exact .int h
  | str _ => exact .str _
  | arr _ ih => exact .arr ih
  | obj hk _ _ ih => exact .obj hk ih

/-! ## Their texts -/

theorem isSome_char?_escapeUnit {c : Code} (hc : c.char?.isSome = true) :
    ∀ x ∈ escapeUnit c, x.char?.isSome = true := by
  unfold escapeUnit
  split <;> try decide
  split
  · rintro x hx
    rcases List.mem_append.mp hx with hx | hx
    · exact (by decide : ∀ x ∈ (↑"\\u00" : Text), x.char?.isSome = true) x hx
    · rcases List.mem_pair.mp hx with rfl | rfl <;> rfl
  · exact fun x hx => List.mem_singleton.mp hx ▸ hc

theorem isSome_char?_quote {t : Text} (ht : t.IsChars) : ∀ x ∈ quote t, x.char?.isSome = true := by
  have hmark : ∀ x ∈ (↑"\"" : Text), x.char?.isSome = true := by decide
  simp only [quote, List.forall_mem_append]
  refine ⟨⟨hmark, fun x hx => ?_⟩, hmark⟩
  obtain ⟨c, hc, hx⟩ := List.mem_flatMap.mp hx
  exact isSome_char?_escapeUnit (Text.isChars_iff_forall.mp ht c hc) x hx

theorem isChars_ofInt (i : Int) : (Text.ofInt i).IsChars := by
  rw [ofInt_eq]
  exact Text.isChars_ofChars _

/-- No half of a pair stands in the text of a storable document. -/
theorem Storable.isSome_char? {v : Json} (h : Storable v) (depth : Nat) :
    ∀ x ∈ writeAt depth v, x.char?.isSome = true := by
  have hmarks : ∀ x ∈ marks, x.char?.isSome = true := by decide
  induction h generalizing depth with
  | null => exact (by decide : ∀ x ∈ (↑"null" : Text), x.char?.isSome = true)
  | bool b =>
    cases b
    · exact (by decide : ∀ x ∈ (↑"false" : Text), x.char?.isSome = true)
    · exact (by decide : ∀ x ∈ (↑"true" : Text), x.char?.isSome = true)
  | @int i _ => exact Text.isChars_iff_forall.mp (isChars_ofInt i)
  | str ht => exact isSome_char?_quote ht
  | arr _ ih => exact forall_mem_writeAt_arr hmarks fun v hv => ih v hv _
  | obj _ hc _ ih =>
    refine forall_mem_writeAt_obj hmarks (fun f hf => ?_) fun f hf => ih f hf _
    exact isSome_char?_quote (hc f.1 (List.mem_map_of_mem hf))

theorem Storable.isChars_write {v : Json} (h : Storable v) : v.write.IsChars := by
  rw [write, Text.isChars_append, Text.isChars_iff_forall]
  exact ⟨h.isSome_char? 0, Text.isChars_ofString "\n"⟩

/-! ## Writing and reading -/

variable {v : Json} {p : Path} {w w' : World}

/-- **Whoever reads a document where it has been written has it again.** -/
theorem does_readDocument_of_writeDocument (hv : Readable v) {x : Unit}
    (h : Does (writeDocument p v) w x w') : Does (readDocument p) w' v w' := by
  obtain ⟨bytes, d', hbytes, hwrite, rfl⟩ := does_writeText.mp h
  obtain ⟨cs, hcs, hread⟩ := read_plainLines hv hbytes
  exact does_readDocument.mpr ⟨⟨bytes, cs, Disk.read_writeFile hwrite, hcs, hread⟩, rfl⟩

/-- Only the disk can keep a storable document from being written. -/
theorem Storable.fails_writeDocument (hv : Storable v) {f : Failure}
    (h : Fails (writeDocument p v) w f w') : ∃ e, f = .file e := by
  have hencode : encode v.write = pure (Utf8.encode v.write.toChars) := by
    rw [encode, Text.encode?_of_isChars hv.isChars_write]
  have hwrite : Fails (Act.change (·.writeFile p (Utf8.encode v.write.toChars))) w f w' := by
    rw [writeDocument, writeText, hencode] at h
    exact h
  exact (failsOnly_change (fun e => ⟨e, rfl⟩) _ :
    FailsOnly (fun f => ∃ e, f = .file e) _) w f w' hwrite

/-- Where a file can be written, a storable document can. -/
theorem Storable.exists_writeDocument (hv : Storable v) (hp : p.IsResolved)
    (htag : Code.char '/' ∉ w.disk.tag) (hw : w.disk.Writable p) :
    ∃ w', Does (writeDocument p v) w () w' := by
  obtain ⟨d', hd'⟩ := Disk.exists_writeFile hp htag hw (Utf8.encode v.write.toChars)
  exact ⟨_, does_writeText.mpr ⟨_, d', Text.encode?_of_isChars hv.isChars_write, hd', rfl⟩⟩

/-! ## Printing again -/

/-- What is written of the document that a file with the text holds. -/
def reprint (t : Text) : Except Fault Text := write <$> read t.plainLines

theorem reprint_eq_ok {t : Text} (h : read t.plainLines = .ok v) : reprint t = .ok v.write := by
  rw [reprint, h]
  rfl

/-- What is written of a readable document has no carriage returns, so reading it as a file changes
nothing. -/
theorem reprint_write (hv : Readable v) : reprint v.write = .ok v.write := by
  refine reprint_eq_ok ?_
  rw [plainLines_of_notMem hv.return_notMem_write, read_write hv]

/-! ## Persistence -/

/-- **A storable document survives.** Where it has been written it is read, the disk alone can
refuse it, and a text that is read as it is printed in the same way ever after. -/
theorem Storable.persists (hv : Storable v) :
    (∀ p w w', Does (writeDocument p v) w () w' → Does (readDocument p) w' v w') ∧
    (∀ p w f w', Fails (writeDocument p v) w f w' → ∃ e, f = .file e) ∧
    (∀ (p : Path) (w : World), p.IsResolved → Code.char '/' ∉ w.disk.tag → w.disk.Writable p →
      ∃ w', Does (writeDocument p v) w () w') ∧
    ∀ t, read t.plainLines = .ok v → reprint t = .ok v.write ∧ reprint v.write = .ok v.write :=
  ⟨fun _ _ _ => does_readDocument_of_writeDocument hv.readable,
    fun _ _ _ _ => hv.fails_writeDocument,
    fun _ _ => hv.exists_writeDocument,
    fun _ h => ⟨reprint_eq_ok h, reprint_write hv.readable⟩⟩

namespace Sample

/-- Empty containers, a negative integer, marks of strings, control characters, a line separator and
a character beyond the first plane. -/
def document : Json :=
  .obj [("\"\\", .arr [.null, .bool true, .int (-7), .obj [], .arr []]),
    ("\u0001\u2028😀", .str "line\r\n\t")]

/-- The same document on one line and a half. -/
def spelled : Text :=
  ("\x7b\"\\u0022\\\\\":[null,true,-7,\x7b\x7d,[ ]],\r\n" : Text) ++
    "\"\\u0001\\u2028\\ud83d\\ude00\":\"line\\r\\n\\t\"\x7d"

theorem storable : Storable document := by
  refine .obj (by decide) (by decide) ?_
  simp only [List.forall_mem_cons]
  refine ⟨.arr ?_, .str (by decide), fun _ h => absurd h List.not_mem_nil⟩
  simp only [List.forall_mem_cons]
  have hshort : IsShort (-7) :=
    calc (7 : Nat) < 10 ^ 1 := by decide
      _ ≤ 10 ^ integerDigits := Nat.pow_le_pow_right (by decide) (by decide)
  exact ⟨.null, .bool true, .int hshort, .obj (by decide) (by decide) fun _ h =>
    absurd h List.not_mem_nil,
    .arr fun _ h => absurd h List.not_mem_nil, fun _ h => absurd h List.not_mem_nil⟩

def path : Path := ⟨.slash, ["d"]⟩

def world : World := { disk := ⟨[], [], "t"⟩ }

theorem isResolved_path : path.IsResolved := ⟨rfl, by decide⟩

theorem writable : world.disk.Writable path := ⟨by decide, by decide, by decide⟩

theorem read_spelled : read spelled.plainLines = .ok document := by
  have hname : ("\u0001\u2028😀" : Text) = "\u0001\u2028" ++ [joinPair 0xD83D 0xDE00] := rfl
  rw [document, hname]
  rfl

end Sample

theorem Storable.persists_sample : Storable Sample.document ∧
    (∃ w', Does (writeDocument Sample.path Sample.document) Sample.world () w' ∧
      Does (readDocument Sample.path) w' Sample.document w') ∧
    read Sample.spelled.plainLines = .ok Sample.document ∧
    reprint Sample.spelled = .ok Sample.document.write := by
  obtain ⟨hread, -, hwrite, hprint⟩ := Storable.persists Sample.storable
  obtain ⟨w', hw⟩ :=
    hwrite Sample.path Sample.world Sample.isResolved_path (by decide) Sample.writable
  exact ⟨Sample.storable, ⟨w', hw, hread _ _ _ hw⟩, Sample.read_spelled,
    (hprint _ Sample.read_spelled).1⟩

end UberPackage.Json
