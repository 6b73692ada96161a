/-
  Documents written and read back.

  `Survives` says that a value is read as it was written, whatever follows it; every readable value
  survives, by induction over it (`Readable.survives`).  So a readable document that is written
  reads as itself, as a text (`read_write`) and through a file (`read_plainLines`).
-/
import UberPackage.Proofs.Json.Readable
import UberPackage.Proofs.Json.TextKeys

namespace UberPackage.Json

open Decimal

/-! ## Strings -/

theorem hexValue?_hexDigit {n : Nat} (h : n < 16) : hexValue? (hexDigit n) = some n := by
  interval_cases n <;> rfl

theorem ofPoint_point (c : Code) : Code.ofPoint c.point = c := by
  cases c with
  | half i =>
    have hi := i.isLt
    have hr : 0xD800 ≤ 0xD800 + i.val ∧ 0xD800 + i.val < 0xE000 := by omega
    rw [Code.point, Code.ofPoint, dif_pos hr]
    simp
  | char c =>
    have hc := c.valid
    have hlt : c.toNat < 0x110000 := by
      rcases hc with hc | hc
      · exact Nat.lt_trans hc (by decide)
      · exact hc.2
    have hne : ¬ (0xD800 ≤ c.toNat ∧ c.toNat < 0xE000) := by
      rintro ⟨hl, hh⟩
      rcases hc with hc | hc
      · exact absurd hc (Nat.not_lt.mpr hl)
      · exact absurd hh (Nat.not_lt.mpr (Nat.succ_le_of_lt hc.1))
    rw [Code.point, Code.ofPoint, dif_neg hne, if_pos hlt, Char.ofNat_toNat]

/-- An escaped control character is read as it is. -/
theorem unicodeEscape_control {c : Code} (hc : c.point < 0x20) {rest : Text} (hr : rest ≠ []) :
    unicodeEscape (.char 'u' :: .char '0' :: .char '0' :: hexDigit (c.point / 16) ::
      hexDigit (c.point % 16) :: rest) = .ok (c, rest) := by
  have hhex : hex4? (.char '0' :: .char '0' :: hexDigit (c.point / 16) ::
      hexDigit (c.point % 16) :: rest) = some (c.point, rest) := by
    rw [hex4?, hexValue?_hexDigit (by omega), hexValue?_hexDigit (by omega)]
    show some (((0 * 16 + 0) * 16 + c.point / 16) * 16 + c.point % 16, rest) = _
    rw [show ((0 * 16 + 0) * 16 + c.point / 16) * 16 + c.point % 16 = c.point by omega]
  have hlen : ¬ (Code.char '0' :: .char '0' :: hexDigit (c.point / 16) ::
      hexDigit (c.point % 16) :: rest).length ≤ 4 := by
    have := List.length_pos_iff.mpr hr
    simp only [List.length_cons]
    omega
  rw [unicodeEscape, List.drop_succ_cons, List.drop_zero, if_neg hlen, hhex]
  dsimp only
  rw [if_neg, ofPoint_point]
  simp only [Bool.and_eq_true, decide_eq_true_eq]
  omega

/-- One unit of a string is read as it was written. -/
theorem readString_escapeUnit (opening : Text) (n : Nat) (c : Code) {rest : Text} (hr : rest ≠ [])
    (read : Text) : readString opening (n + 1) (escapeUnit c ++ rest) read =
      readString opening n rest (c :: read) := by
  unfold escapeUnit
  split
  · rfl
  · rfl
  · rfl
  · rfl
  · rfl
  · rfl
  · rfl
  · next hquote hslash _ _ _ _ _ =>
    split
    · next hc =>
      have hrest : readString opening (n + 1) (.char '\\' :: .char 'u' :: .char '0' :: .char '0' ::
          hexDigit (c.point / 16) :: hexDigit (c.point % 16) :: rest) read =
          (unicodeEscape (.char 'u' :: .char '0' :: .char '0' ::
            hexDigit (c.point / 16) :: hexDigit (c.point % 16) :: rest) >>= fun r =>
              readString opening n r.2 (r.1 :: read)) := rfl
      rw [unicodeEscape_control hc hr] at hrest
      exact hrest
    · next hc =>
      show readString opening (n + 1) (c :: rest) read = _
      conv_lhs => unfold readString
      rw [if_neg hquote, if_neg hslash, if_neg hc]

theorem readString_quote (opening : Text) (t rest : Text) {n : Nat} (hn : t.length < n)
    (read : Text) :
    readString opening n (t.flatMap escapeUnit ++ .char '"' :: rest) read =
      .ok (read.reverse ++ t, rest) := by
  induction t generalizing n read with
  | nil =>
    obtain ⟨n, rfl⟩ := Nat.exists_eq_succ_of_ne_zero hn.ne'
    rw [List.append_nil]
    rfl
  | cons c t ih =>
    obtain ⟨n, rfl⟩ :=
      Nat.exists_eq_succ_of_ne_zero (Nat.ne_of_gt (Nat.lt_of_le_of_lt (Nat.zero_le _) hn))
    rw [List.flatMap_cons, List.append_assoc, readString_escapeUnit _ _ _ (by simp),
      ih (by simpa using hn), List.reverse_cons, List.append_assoc]
    rfl

/-! ## First units -/

/-- The first unit of a value: no blank, no mark, and no bracket or brace that closes. -/
def Opens (t : Text) : Prop :=
  ∃ c s, t = c :: s ∧ isSpace c = false ∧ c ≠ .char '\uFEFF' ∧ c ≠ .char ']' ∧ c ≠ .char '\x7d'

/-- The first unit of a word or a number: no quote, bracket or brace. -/
def IsPlain (t : Text) : Prop :=
  ∃ c s, t = c :: s ∧ c ≠ .char '"' ∧ c ≠ .char '[' ∧ c ≠ .char '\x7b'

/-- A number begins with a minus sign or a digit. -/
theorem head_numberText {negative down : Bool} {whole fraction digits : List Char}
    (hw : IsWhole whole) : ∃ c s, Text.ofChars (numberText negative whole fraction down digits) =
      .char c :: s ∧ (c = '-' ∨ c.isDigit = true) := by
  obtain ⟨c, ds, rfl⟩ := List.exists_cons_of_ne_nil hw.ne_nil
  cases negative with
  | true => exact ⟨'-', _, rfl, Or.inl rfl⟩
  | false => exact ⟨c, _, rfl, Or.inr (hw.digits c List.mem_cons_self)⟩

theorem opens_numberText {negative down : Bool} {whole fraction digits : List Char}
    (hw : IsWhole whole) : Opens (Text.ofChars (numberText negative whole fraction down digits)) ∧
      IsPlain (Text.ofChars (numberText negative whole fraction down digits)) := by
  obtain ⟨c, s, htext, hc⟩ := @head_numberText negative down whole fraction digits hw
  have hne : ∀ d : Char, d ≠ '-' → d.isDigit = false → Code.char c ≠ .char d := by
    rintro d hd hdigit he
    obtain rfl := Code.char.inj he
    rcases hc with rfl | hc
    · exact hd rfl
    · rw [hdigit] at hc
      exact absurd hc (by simp)
  have hspace : isSpace (.char c) = false := by
    simp [isSpace, hne ' ' (by decide) rfl, hne '\t' (by decide) rfl, hne '\n' (by decide) rfl,
      hne '\r' (by decide) rfl]
  exact ⟨⟨_, s, htext, hspace, hne '\uFEFF' (by decide) rfl, hne ']' (by decide) rfl,
    hne '\x7d' (by decide) rfl⟩,
    ⟨_, s, htext, hne '"' (by decide) rfl, hne '[' (by decide) rfl, hne '\x7b' (by decide) rfl⟩⟩

/-- The text of a proper number that is not an integer. -/
theorem opens_floatText {x : Binary64} (h : x.Proper) :
    Opens (floatText x) ∧ IsPlain (floatText x) := by
  cases x with
  | nan =>
    exact ⟨⟨_, _, rfl, by decide, by decide, by decide, by decide⟩,
      ⟨_, _, rfl, by decide, by decide, by decide⟩⟩
  | infinity b =>
    cases b <;>
    exact ⟨⟨_, _, rfl, by decide, by decide, by decide, by decide⟩,
      ⟨_, _, rfl, by decide, by decide, by decide⟩⟩
  | finite b m e =>
    obtain ⟨cs, whole, fraction, down, digits, x, htext, hs, -⟩ := exists_spells h b
    rw [htext, hs.text, ← List.append_assoc, ← List.append_assoc]
    exact opens_numberText hs.isWhole

theorem Readable.opens {v : Json} (h : Readable v) (depth : Nat) : Opens (writeAt depth v) := by
  cases h with
  | null => exact ⟨_, _, rfl, by decide, by decide, by decide, by decide⟩
  | bool b => cases b <;> exact ⟨_, _, rfl, by decide, by decide, by decide, by decide⟩
  | @int i h =>
    rw [writeAt, ofInt_eq]
    exact (opens_numberText (isWhole_toDigits _)).1
  | @float x h =>
    rw [writeAt]
    exact (opens_floatText h).1
  | str t => exact ⟨_, _, rfl, by decide, by decide, by decide, by decide⟩
  | @arr vs h =>
    cases vs <;> rw [writeAt] <;> exact ⟨_, _, rfl, by decide, by decide, by decide, by decide⟩
  | @obj fs hk h =>
    cases fs <;> rw [writeAt] <;> exact ⟨_, _, rfl, by decide, by decide, by decide, by decide⟩

/-! ## Blanks -/

theorem skipSpace_of_opens {t : Text} (h : Opens t) (rest : Text) :
    skipSpace (t ++ rest) = t ++ rest := by
  obtain ⟨c, s, rfl, hc, -⟩ := h
  rw [List.cons_append, skipSpace, List.dropWhile_cons, hc]
  rfl

theorem skipSpace_newLine (depth : Nat) (t : Text) :
    skipSpace (newLine depth ++ t) = skipSpace t := by
  have hspaces : ∀ k : Nat, skipSpace (List.replicate k (.char ' ') ++ t) = skipSpace t := by
    intro k
    induction k with
    | zero => rfl
    | succ k ih => exact ih
  exact hspaces (2 * depth)

theorem stops_newLine (depth : Nat) (t : Text) : Stops (newLine depth ++ t) := by
  refine ⟨fun c hc => ?_, ?_, ?_, ?_⟩
  · cases hc
    rfl
  all_goals
    show some (Code.char '\n') ≠ _
    decide

theorem stops_comma (t : Text) : Stops (.char ',' :: t) := by
  refine ⟨fun c hc => ?_, ?_, ?_, ?_⟩
  · cases hc
    rfl
  all_goals
    show some (Code.char ',') ≠ _
    decide

/-- A value that is no string, array or object is a word or a number. -/
theorem readTask_plain {t : Text} (h : IsPlain t) (n : Nat) (rest : Text) :
    readTask (n + 1) .value (t ++ rest) = readScalar (t ++ rest) := by
  obtain ⟨c, s, rfl, hquote, hbracket, hbrace⟩ := h
  rw [List.cons_append, readTask]
  · exact fun s hs => hquote (List.cons.inj hs).1
  · exact fun s hs => hbrace (List.cons.inj hs).1
  · exact fun s hs => hbracket (List.cons.inj hs).1

/-! ## Values -/

/-- The value is read as it was written, given enough steps. -/
def Survives (v : Json) : Prop :=
  ∀ (depth n : Nat) (rest : Text), Stops rest → 2 * (writeAt depth v).length ≤ n →
    readTask n .value (writeAt depth v ++ rest) = .ok (v, rest)

theorem Readable.exists_steps {v : Json} (hv : Readable v) {depth n : Nat}
    (hn : 2 * (writeAt depth v).length ≤ n) : ∃ m, n = m + 1 := by
  obtain ⟨c, s, hcs, -⟩ := hv.opens depth
  rw [hcs, List.length_cons] at hn
  exact Nat.exists_eq_add_one_of_ne_zero (by omega)

theorem survives_plain {v : Json} {t : Text} (ht : ∀ depth, writeAt depth v = t)
    (hplain : IsPlain t) (hread : ∀ rest, Stops rest → readScalar (t ++ rest) = .ok (v, rest)) :
    Survives v := by
  intro depth n rest hrest hn
  obtain ⟨c, s, hcs, -⟩ := id hplain
  rw [ht, hcs, List.length_cons] at hn
  obtain ⟨n, rfl⟩ := Nat.exists_eq_add_one_of_ne_zero (show n ≠ 0 by omega)
  rw [ht, readTask_plain hplain, hread rest hrest]

/-! ## Arrays -/

theorem Opens.append {t : Text} (h : Opens t) (rest : Text) : Opens (t ++ rest) := by
  obtain ⟨c, s, rfl, hc⟩ := h
  exact ⟨c, s ++ rest, rfl, hc⟩

/-- An array that is not empty. -/
theorem readTask_value_arr {n : Nat} {t s : Text} (hs : skipSpace t = s) (ho : Opens s) :
    readTask (n + 1) .value (.char '[' :: t) = readTask n (.items []) s := by
  obtain ⟨c, s', rfl, -, -, hbracket, -⟩ := ho
  rw [readTask, hs]
  split
  · next h => exact absurd (List.cons.inj h).1 hbracket
  · rfl

/-- The last item of an array. -/
theorem readTask_items_last {n : Nat} {read : List Json} {t rest rest' : Text} {v : Json}
    (h : readTask n .value t = .ok (v, rest)) (hr : skipSpace rest = .char ']' :: rest') :
    readTask (n + 1) (.items read) t = .ok (.arr (v :: read).reverse, rest') := by
  rw [readTask, h, except_ok_bind]
  dsimp only
  rw [hr]
  rfl

/-- An item that another follows. -/
theorem readTask_items_next {n : Nat} {read : List Json} {t rest rest' : Text} {v : Json}
    (h : readTask n .value t = .ok (v, rest)) (hr : skipSpace rest = .char ',' :: rest') :
    readTask (n + 1) (.items read) t = readTask n (.items (v :: read)) (skipSpace rest') := by
  rw [readTask, h, except_ok_bind]
  dsimp only
  rw [hr]
  rfl

/-- Further items are read as they were written. -/
theorem readTask_items {v : Json} {vs : List Json} (hv : ∀ w ∈ v :: vs, Readable w)
    (hs : ∀ w ∈ v :: vs, Survives w) (depth n : Nat) (read : List Json) (rest : Text)
    (hn : 2 * ((writeAt (depth + 1) v).length + (writeItems (depth + 1) vs).length) < n) :
    readTask n (.items read) (writeAt (depth + 1) v ++ (writeItems (depth + 1) vs ++
      (newLine depth ++ .char ']' :: rest))) = .ok (.arr (read.reverse ++ v :: vs), rest) := by
  induction vs generalizing v n read with
  | nil =>
    obtain ⟨n, rfl⟩ := Nat.exists_eq_add_one_of_ne_zero (show n ≠ 0 by omega)
    have hvalue := hs v List.mem_cons_self (depth + 1) n (newLine depth ++ .char ']' :: rest)
      (stops_newLine _ _) (by omega)
    rw [writeItems, List.nil_append, readTask_items_last hvalue (skipSpace_newLine _ _),
      List.reverse_cons]
  | cons w ws ih =>
    obtain ⟨n, rfl⟩ := Nat.exists_eq_add_one_of_ne_zero (show n ≠ 0 by omega)
    simp only [writeItems, List.append_assoc, List.length_append] at hn ⊢
    have hvalue := hs v List.mem_cons_self (depth + 1) n (.char ',' :: (newLine (depth + 1) ++
      (writeAt (depth + 1) w ++ (writeItems (depth + 1) ws ++
        (newLine depth ++ .char ']' :: rest)))))
      (stops_comma _) (by omega)
    have hw := (hv w (by simp)).opens (depth + 1)
    have hcomma : List.length (↑"," : Text) = 1 := rfl
    calc _ = readTask n (.items (v :: read)) (skipSpace (newLine (depth + 1) ++
            (writeAt (depth + 1) w ++ (writeItems (depth + 1) ws ++
              (newLine depth ++ .char ']' :: rest))))) := readTask_items_next hvalue rfl
      _ = readTask n (.items (v :: read)) (writeAt (depth + 1) w ++ (writeItems (depth + 1) ws ++
              (newLine depth ++ .char ']' :: rest))) := by
          rw [skipSpace_newLine, skipSpace_of_opens hw]
      _ = _ := by
          rw [ih (fun u hu => hv u (List.mem_cons_of_mem v hu))
            (fun u hu => hs u (List.mem_cons_of_mem v hu)) n (v :: read) (by omega),
            List.reverse_cons, List.append_assoc]
          rfl

theorem survives_arr {vs : List Json} (hv : ∀ v ∈ vs, Readable v) (hs : ∀ v ∈ vs, Survives v) :
    Survives (arr vs) := by
  intro depth n rest hrest hn
  cases vs with
  | nil =>
    obtain ⟨n, rfl⟩ := (Readable.arr hv).exists_steps hn
    rfl
  | cons v vs =>
    simp only [writeAt, List.append_assoc, List.length_append] at hn ⊢
    have hbracket : List.length (↑"[" : Text) = 1 := rfl
    obtain ⟨n, rfl⟩ := Nat.exists_eq_add_one_of_ne_zero (show n ≠ 0 by omega)
    have hskip : skipSpace (newLine (depth + 1) ++ (writeAt (depth + 1) v ++
        (writeItems (depth + 1) vs ++ (newLine depth ++ .char ']' :: rest)))) =
        writeAt (depth + 1) v ++ (writeItems (depth + 1) vs ++
          (newLine depth ++ .char ']' :: rest)) := by
      rw [skipSpace_newLine, skipSpace_of_opens ((hv v List.mem_cons_self).opens _)]
    calc _ = readTask n (.items []) (writeAt (depth + 1) v ++ (writeItems (depth + 1) vs ++
            (newLine depth ++ .char ']' :: rest))) :=
          readTask_value_arr hskip (((hv v List.mem_cons_self).opens _).append _)
      _ = _ := readTask_items hv hs depth n [] rest (by omega)

/-! ## Objects -/

theorem quote_append (t rest : Text) :
    quote t ++ rest = .char '"' :: (t.flatMap escapeUnit ++ .char '"' :: rest) := by
  rw [quote, List.append_assoc, List.append_assoc]
  rfl

theorem length_escapeUnit (c : Code) : 1 ≤ (escapeUnit c).length := by
  unfold escapeUnit
  split <;> first | decide | (split <;> simp)

theorem length_flatMap_escapeUnit (t : Text) : t.length ≤ (t.flatMap escapeUnit).length := by
  induction t with
  | nil => exact Nat.zero_le _
  | cons c t ih =>
    have := length_escapeUnit c
    rw [List.flatMap_cons, List.length_append, List.length_cons]
    omega

/-- A string is read as it was written. -/
theorem readString_of_quote (opening t rest : Text) :
    readString opening ((t.flatMap escapeUnit ++ .char '"' :: rest).length + 1)
      (t.flatMap escapeUnit ++ .char '"' :: rest) [] = .ok (t, rest) := by
  have := length_flatMap_escapeUnit t
  rw [readString_quote _ _ _ (by rw [List.length_append]; omega), List.reverse_nil, List.nil_append]

theorem survives_str (t : Text) : Survives (str t) := by
  intro depth n rest hrest hn
  obtain ⟨n, rfl⟩ := (Readable.str t).exists_steps hn
  rw [writeAt, quote_append, readTask, readString_of_quote]
  rfl

theorem fields_set_of_notMem {key : Text} {fs : Fields} (h : key ∉ fs.keys) (v : Json) :
    Fields.set key v fs = fs ++ [(key, v)] := by
  induction fs with
  | nil => rfl
  | cons f fs ih =>
    obtain ⟨k, u⟩ := f
    rw [Fields.keys, List.map_cons, List.mem_cons, not_or] at h
    rw [Fields.set, if_neg (Ne.symm h.1), ih h.2]
    rfl

/-- A field whose name is new goes to the end. -/
theorem fields_set_of_nodup {f : Text × Json} {read fs : Fields}
    (hk : (Fields.keys (read ++ f :: fs)).Nodup) : Fields.set f.1 f.2 read = read ++ [f] := by
  refine fields_set_of_notMem (fun hmem => ?_) f.2
  rw [Fields.keys, List.map_append, List.nodup_append] at hk
  exact hk.2.2 f.1 hmem f.1 (List.mem_map_of_mem List.mem_cons_self) rfl

/-- The text of a field. -/
def fieldText (depth : Nat) (key : Text) (v : Json) : Text := quote key ++ ": " ++ writeAt depth v

/-- When a field has been read, what follows decides. -/
theorem readTask_field {n depth : Nat} {read : Fields} {key rest : Text} {v : Json}
    (hv : Readable v) (h : readTask n .value (writeAt depth v ++ rest) = .ok (v, rest)) :
    readTask (n + 1) (.fields read) (fieldText depth key v ++ rest) =
      match skipSpace rest with
      | .char '\x7d' :: rest => .ok (.obj (read.set key v), rest)
      | .char ',' :: rest => readTask n (.fields (read.set key v)) (skipSpace rest)
      | rest => misread .comma rest := by
  have hskip : skipSpace (.char ' ' :: (writeAt depth v ++ rest)) = writeAt depth v ++ rest :=
    skipSpace_of_opens (hv.opens depth) rest
  have hcolon : skipSpace (↑": " ++ (writeAt depth v ++ rest)) =
      .char ':' :: .char ' ' :: (writeAt depth v ++ rest) := rfl
  rw [fieldText, List.append_assoc, List.append_assoc, quote_append, readTask, readString_of_quote,
    except_ok_bind]
  dsimp only
  rw [hcolon]
  show (readTask n .value (skipSpace (.char ' ' :: (writeAt depth v ++ rest))) >>= _) = _
  rw [hskip, h, except_ok_bind]
  rfl

/-- The last field of an object. -/
theorem readTask_fields_last {n depth : Nat} {read : Fields} {key rest rest' : Text} {v : Json}
    (hv : Readable v) (h : readTask n .value (writeAt depth v ++ rest) = .ok (v, rest))
    (hr : skipSpace rest = .char '\x7d' :: rest') :
    readTask (n + 1) (.fields read) (fieldText depth key v ++ rest) =
      .ok (.obj (read.set key v), rest') := by
  rw [readTask_field hv h, hr]
  rfl

/-- A field that another follows. -/
theorem readTask_fields_next {n depth : Nat} {read : Fields} {key rest rest' : Text} {v : Json}
    (hv : Readable v) (h : readTask n .value (writeAt depth v ++ rest) = .ok (v, rest))
    (hr : skipSpace rest = .char ',' :: rest') :
    readTask (n + 1) (.fields read) (fieldText depth key v ++ rest) =
      readTask n (.fields (read.set key v)) (skipSpace rest') := by
  rw [readTask_field hv h, hr]
  rfl

theorem writeFields_cons (depth : Nat) (f : Text × Json) (fs : Fields) :
    writeFields depth (f :: fs) =
      ↑"," ++ newLine depth ++ fieldText depth f.1 f.2 ++ writeFields depth fs := by
  obtain ⟨k, v⟩ := f
  simp only [writeFields, fieldText, List.append_assoc]

theorem writeAt_obj_cons (depth : Nat) (f : Text × Json) (fs : Fields) :
    writeAt depth (obj (f :: fs)) = ↑"\x7b" ++ newLine (depth + 1) ++
      fieldText (depth + 1) f.1 f.2 ++ writeFields (depth + 1) fs ++ newLine depth ++ ↑"\x7d" := by
  obtain ⟨k, v⟩ := f
  simp only [writeAt, fieldText, List.append_assoc]

theorem opens_fieldText (depth : Nat) (key : Text) (v : Json) : Opens (fieldText depth key v) :=
  ⟨_, _, by rw [fieldText, List.append_assoc,
    quote_append], by decide, by decide, by decide, by decide⟩

theorem length_writeAt_le (depth : Nat) (key : Text) (v : Json) :
    (writeAt depth v).length ≤ (fieldText depth key v).length := by
  rw [fieldText, List.length_append]
  exact Nat.le_add_left _ _

/-- Further fields are read as they were written. -/
theorem readTask_fields {f : Text × Json} {fs : Fields} (hv : ∀ g ∈ f :: fs, Readable g.2)
    (hs : ∀ g ∈ f :: fs, Survives g.2) (depth n : Nat) (read : Fields)
    (hk : (Fields.keys (read ++ f :: fs)).Nodup) (rest : Text)
    (hn : 2 * ((fieldText (depth + 1) f.1 f.2).length + (writeFields (depth + 1) fs).length) < n) :
    readTask n (.fields read) (fieldText (depth + 1) f.1 f.2 ++ (writeFields (depth + 1) fs ++
      (newLine depth ++ .char '\x7d' :: rest))) = .ok (.obj (read ++ f :: fs), rest) := by
  induction fs generalizing f n read with
  | nil =>
    have hlength := length_writeAt_le (depth + 1) f.1 f.2
    obtain ⟨n, rfl⟩ := Nat.exists_eq_add_one_of_ne_zero (show n ≠ 0 by omega)
    have hvalue := hs f List.mem_cons_self (depth + 1) n (newLine depth ++ .char '\x7d' :: rest)
      (stops_newLine _ _) (by omega)
    rw [writeFields, List.nil_append, readTask_fields_last (hv f List.mem_cons_self) hvalue
      (skipSpace_newLine _ _), fields_set_of_nodup hk]
  | cons g gs ih =>
    have hlength := length_writeAt_le (depth + 1) f.1 f.2
    obtain ⟨n, rfl⟩ := Nat.exists_eq_add_one_of_ne_zero (show n ≠ 0 by omega)
    simp only [writeFields_cons, List.append_assoc, List.length_append] at hn ⊢
    have hvalue := hs f List.mem_cons_self (depth + 1) n (.char ',' :: (newLine (depth + 1) ++
      (fieldText (depth + 1) g.1 g.2 ++ (writeFields (depth + 1) gs ++
        (newLine depth ++ .char '\x7d' :: rest))))) (stops_comma _) (by omega)
    have hcomma : List.length (↑"," : Text) = 1 := rfl
    have hnext : read ++ f :: g :: gs = read ++ [f] ++ g :: gs := by simp
    calc _ = readTask n (.fields (read ++ [f])) (skipSpace (newLine (depth + 1) ++
            (fieldText (depth + 1) g.1 g.2 ++ (writeFields (depth + 1) gs ++
              (newLine depth ++ .char '\x7d' :: rest))))) := by
          rw [← fields_set_of_nodup hk]
          exact readTask_fields_next (hv f List.mem_cons_self) hvalue rfl
      _ = readTask n (.fields (read ++ [f])) (fieldText (depth + 1) g.1 g.2 ++
            (writeFields (depth + 1) gs ++ (newLine depth ++ .char '\x7d' :: rest))) := by
          rw [skipSpace_newLine, skipSpace_of_opens (opens_fieldText _ _ _)]
      _ = _ := by
          rw [hnext] at hk ⊢
          exact ih (fun u hu => hv u (List.mem_cons_of_mem f hu))
            (fun u hu => hs u (List.mem_cons_of_mem f hu)) n (read ++ [f]) hk (by omega)

/-- An object that is not empty. -/
theorem readTask_value_obj {n : Nat} {t s : Text} (hs : skipSpace t = s) (ho : Opens s) :
    readTask (n + 1) .value (.char '\x7b' :: t) = readTask n (.fields []) s := by
  obtain ⟨c, s', rfl, -, -, -, hbrace⟩ := ho
  rw [readTask, hs]
  split
  · next h => exact absurd (List.cons.inj h).1 hbrace
  · rfl

theorem survives_obj {fs : Fields} (hk : fs.keys.Nodup) (hv : ∀ f ∈ fs, Readable f.2)
    (hs : ∀ f ∈ fs, Survives f.2) : Survives (obj fs) := by
  intro depth n rest hrest hn
  obtain ⟨n, rfl⟩ := (Readable.obj hk hv).exists_steps hn
  cases fs with
  | nil => rfl
  | cons f fs =>
    rw [writeAt_obj_cons] at hn ⊢
    simp only [List.append_assoc, List.length_append] at hn ⊢
    have hskip : skipSpace (newLine (depth + 1) ++ (fieldText (depth + 1) f.1 f.2 ++
        (writeFields (depth + 1) fs ++ (newLine depth ++ .char '\x7d' :: rest)))) =
        fieldText (depth + 1) f.1 f.2 ++ (writeFields (depth + 1) fs ++
          (newLine depth ++ .char '\x7d' :: rest)) := by
      rw [skipSpace_newLine, skipSpace_of_opens (opens_fieldText _ _ _)]
    have hbrace : List.length (↑"\x7b" : Text) = 1 := rfl
    calc _ = readTask n (.fields []) (fieldText (depth + 1) f.1 f.2 ++
            (writeFields (depth + 1) fs ++ (newLine depth ++ .char '\x7d' :: rest))) :=
          readTask_value_obj hskip ((opens_fieldText _ _ _).append _)
      _ = _ := readTask_fields hv hs depth n [] hk rest (by omega)

/-! ## Documents -/

theorem isPlain_int (i : Int) : IsPlain (Text.ofInt i) := by
  rw [ofInt_eq]
  exact (opens_numberText (isWhole_toDigits _)).2

/-- Every readable value is read as it was written. -/
theorem Readable.survives {v : Json} (h : Readable v) : Survives v := by
  induction h with
  | null =>
    exact survives_plain (fun _ => rfl) ⟨_, _, rfl, by decide, by decide, by decide⟩ fun _ _ => rfl
  | bool b =>
    cases b <;>
    exact survives_plain (fun _ => rfl) ⟨_, _, rfl, by decide, by decide, by decide⟩ fun _ _ => rfl
  | @int i h => exact survives_plain (fun _ => rfl) (isPlain_int i) fun _ => readScalar_int h
  | @float x h => exact survives_plain (fun _ => rfl) (opens_floatText h).2 fun _ =>
    readScalar_float h
  | str t => exact survives_str t
  | arr h ih => exact survives_arr h ih
  | obj hk h ih => exact survives_obj hk h ih

/-- **A readable document reads as what was written.** -/
theorem read_write {v : Json} (h : Readable v) : read v.write = .ok v := by
  have hopens := h.opens 0
  have hskip : skipSpace v.write = v.write := skipSpace_of_opens hopens _
  have hhead : v.write.head? ≠ some (.char '\uFEFF') := by
    obtain ⟨c, s, hcs, -, hmark, -⟩ := hopens
    rw [write, hcs]
    exact fun h => hmark (Option.some.inj h)
  have htask : readTask (2 * v.write.length + 2) .value (writeAt 0 v ++ ↑"\n") = .ok (v, ↑"\n") :=
    h.survives 0 _ _ (stops_newLine 0 []) (by rw [write, List.length_append]; omega)
  have hwhole : readWhole v.write = .ok v := by
    rw [readWhole, if_neg hhead, hskip]
    show (readTask (2 * v.write.length + 2) .value (writeAt 0 v ++ ↑"\n") >>= _) = _
    rw [htask]
    rfl
  rw [read, hwhole]

/-! ## Units of a written document -/

section Units

/-- The units that stand around and between the parts of arrays and objects. -/
def marks : Text := "[]\x7b\x7d,: \n"

variable {P : Code → Prop} (hmarks : ∀ c ∈ marks, P c)

include hmarks

theorem forall_mem_newLine (depth : Nat) : ∀ c ∈ newLine depth, P c := by
  intro c hc
  rcases List.mem_cons.mp hc with rfl | hc
  · exact hmarks _ (by decide)
  · rw [List.eq_of_mem_replicate hc]
    exact hmarks _ (by decide)

theorem forall_mem_writeItems {depth : Nat} {vs : List Json}
    (h : ∀ v ∈ vs, ∀ c ∈ writeAt depth v, P c) : ∀ c ∈ writeItems depth vs, P c := by
  induction vs with
  | nil => exact fun c hc => absurd hc List.not_mem_nil
  | cons v vs ih =>
    have hcomma : ∀ c ∈ (↑"," : Text), P c :=
      fun c hc => hmarks c (List.mem_singleton.mp hc ▸ by decide)
    simp only [writeItems, List.forall_mem_append]
    exact ⟨⟨⟨hcomma, forall_mem_newLine hmarks _⟩, h v List.mem_cons_self⟩,
      ih fun u hu => h u (List.mem_cons_of_mem v hu)⟩

/-- The units of an array are marks and those of its items. -/
theorem forall_mem_writeAt_arr {depth : Nat} {vs : List Json}
    (h : ∀ v ∈ vs, ∀ c ∈ writeAt (depth + 1) v, P c) : ∀ c ∈ writeAt depth (arr vs), P c := by
  have hopen : ∀ c ∈ (↑"[" : Text), P c :=
    fun c hc => hmarks c (List.mem_singleton.mp hc ▸ by decide)
  have hclose : ∀ c ∈ (↑"]" : Text), P c :=
    fun c hc => hmarks c (List.mem_singleton.mp hc ▸ by decide)
  cases vs with
  | nil => exact List.forall_mem_append.mpr ⟨hopen, hclose⟩
  | cons v vs =>
    have hitems := forall_mem_writeItems hmarks fun u hu => h u (List.mem_cons_of_mem v hu)
    simp only [writeAt, List.forall_mem_append]
    exact ⟨⟨⟨⟨⟨hopen, forall_mem_newLine hmarks _⟩, h v List.mem_cons_self⟩, hitems⟩,
      forall_mem_newLine hmarks _⟩, hclose⟩

theorem forall_mem_fieldText {depth : Nat} {key : Text} {v : Json} (hkey : ∀ c ∈ quote key, P c)
    (h : ∀ c ∈ writeAt depth v, P c) : ∀ c ∈ fieldText depth key v, P c := by
  have hcolon : ∀ c ∈ (↑": " : Text), P c := fun c hc => by
    rcases List.mem_pair.mp hc with rfl | rfl <;> exact hmarks _ (by decide)
  simp only [fieldText, List.forall_mem_append]
  exact ⟨⟨hkey, hcolon⟩, h⟩

theorem forall_mem_writeFields {depth : Nat} {fs : Fields} (hkeys : ∀ f ∈ fs, ∀ c ∈ quote f.1, P c)
    (h : ∀ f ∈ fs, ∀ c ∈ writeAt depth f.2, P c) : ∀ c ∈ writeFields depth fs, P c := by
  induction fs with
  | nil => exact fun c hc => absurd hc List.not_mem_nil
  | cons f fs ih =>
    have hcomma : ∀ c ∈ (↑"," : Text), P c :=
      fun c hc => hmarks c (List.mem_singleton.mp hc ▸ by decide)
    have hfield := forall_mem_fieldText hmarks (hkeys f List.mem_cons_self) (h f List.mem_cons_self)
    simp only [writeFields_cons, List.forall_mem_append]
    exact ⟨⟨⟨hcomma, forall_mem_newLine hmarks _⟩, hfield⟩,
      ih (fun g hg => hkeys g (List.mem_cons_of_mem f hg)) fun g hg =>
        h g (List.mem_cons_of_mem f hg)⟩

/-- The units of an object are marks and those of its names and values. -/
theorem forall_mem_writeAt_obj {depth : Nat} {fs : Fields} (hkeys : ∀ f ∈ fs, ∀ c ∈ quote f.1, P c)
    (h : ∀ f ∈ fs, ∀ c ∈ writeAt (depth + 1) f.2, P c) : ∀ c ∈ writeAt depth (obj fs), P c := by
  have hopen : ∀ c ∈ (↑"\x7b" : Text), P c :=
    fun c hc => hmarks c (List.mem_singleton.mp hc ▸ by decide)
  have hclose : ∀ c ∈ (↑"\x7d" : Text), P c :=
    fun c hc => hmarks c (List.mem_singleton.mp hc ▸ by decide)
  cases fs with
  | nil => exact List.forall_mem_append.mpr ⟨hopen, hclose⟩
  | cons f fs =>
    have hfield := forall_mem_fieldText hmarks (hkeys f List.mem_cons_self) (h f List.mem_cons_self)
    have hfields := forall_mem_writeFields hmarks (fun g hg => hkeys g (List.mem_cons_of_mem f hg))
      fun g hg => h g (List.mem_cons_of_mem f hg)
    simp only [writeAt_obj_cons, List.forall_mem_append]
    exact ⟨⟨⟨⟨⟨hopen, forall_mem_newLine hmarks _⟩, hfield⟩, hfields⟩, forall_mem_newLine hmarks _⟩,
      hclose⟩

end Units

/-! ## Files -/

theorem isChars_text {t : Text} {bytes : Bytes} (h : Utf8.encode? t = some bytes) :
    ∃ cs, t = Text.ofChars cs ∧ bytes = Utf8.encode cs := by
  obtain ⟨cs, hcs, rfl⟩ := Option.map_eq_some_iff.mp h
  exact ⟨cs, Text.chars?_eq_some.mp hcs, rfl⟩

/-- A text without carriage returns has plain lines already. -/
theorem plainLines_of_notMem {t : Text} (h : Code.char '\r' ∉ t) : t.plainLines = t := by
  induction t with
  | nil => rfl
  | cons c t ih =>
    rw [List.mem_cons, not_or] at h
    rw [Text.plainLines, ih h.2]
    · exact fun _ hc _ => h.1 hc.symm
    · exact fun hc => h.1 hc.symm

theorem hexDigit_ne_return {n : Nat} (h : n < 16) : Code.char '\r' ≠ hexDigit n := by
  interval_cases n <;> decide

theorem return_notMem_escapeUnit (c : Code) : Code.char '\r' ∉ escapeUnit c := by
  unfold escapeUnit
  split <;> try decide
  next hreturn _ _ _ =>
    split
    · next hc =>
      rw [List.mem_append, List.mem_cons, List.mem_singleton]
      rintro (hmem | hmem | hmem)
      · exact absurd hmem (by decide)
      · exact hexDigit_ne_return (by omega) hmem
      · exact hexDigit_ne_return (by omega) hmem
    · exact fun hmem => hreturn (List.mem_singleton.mp hmem).symm

theorem return_notMem_quote (t : Text) : Code.char '\r' ∉ quote t := by
  intro hmem
  rw [quote, List.mem_append, List.mem_append, List.mem_flatMap] at hmem
  rcases hmem with (hmem | ⟨c, -, hmem⟩) | hmem
  · exact absurd hmem (by decide)
  · exact return_notMem_escapeUnit c hmem
  · exact absurd hmem (by decide)

theorem return_notMem_numberText {negative down : Bool} {whole fraction digits : List Char}
    (hw : AreDigits whole) (hf : AreDigits fraction) (hd : AreDigits digits) :
    Code.char '\r' ∉ Text.ofChars (numberText negative whole fraction down digits) := by
  have hdigit : ∀ {cs}, AreDigits cs → '\r' ∉ cs := fun h hmem => absurd (h _ hmem) (by decide)
  have hsign : '\r' ∉ signText negative := by cases negative <;> decide
  have hpoint : '\r' ∉ pointText fraction := by
    unfold pointText
    split
    · exact List.not_mem_nil
    · exact List.not_mem_cons_of_ne_of_not_mem (by decide) (hdigit hf)
  have hexponent : '\r' ∉ exponentText down digits := by
    unfold exponentText
    split
    · exact List.not_mem_nil
    · refine List.not_mem_cons_of_ne_of_not_mem (by decide)
        (List.not_mem_cons_of_ne_of_not_mem ?_ (hdigit hd))
      cases down <;> decide
  intro hmem
  obtain ⟨c, hmem, hc⟩ := List.mem_map.mp hmem
  obtain rfl := Code.char.inj hc
  simp only [numberText, List.mem_append] at hmem
  rcases hmem with ((hmem | hmem) | hmem) | hmem
  · exact hsign hmem
  · exact hdigit hw hmem
  · exact hpoint hmem
  · exact hexponent hmem

theorem return_notMem_floatText {x : Binary64} (h : x.Proper) : Code.char '\r' ∉ floatText x := by
  cases x with
  | nan => decide
  | infinity b => cases b <;> decide
  | finite b m e =>
    obtain ⟨cs, whole, fraction, down, digits, x, htext, hs, -⟩ := exists_spells h b
    rw [htext, hs.text, ← List.append_assoc, ← List.append_assoc]
    exact return_notMem_numberText hs.isWhole.digits hs.areFraction hs.areDigits

/-- A readable document is written without carriage returns. -/
theorem Readable.return_notMem {v : Json} (h : Readable v) (depth : Nat) :
    Code.char '\r' ∉ writeAt depth v := by
  have hmarks : ∀ c ∈ marks, c ≠ .char '\r' := by decide
  rw [← List.forall_mem_ne']
  induction h generalizing depth with
  | null => exact (by decide : ∀ c ∈ (↑"null" : Text), c ≠ .char '\r')
  | bool b =>
    cases b
    · exact (by decide : ∀ c ∈ (↑"false" : Text), c ≠ .char '\r')
    · exact (by decide : ∀ c ∈ (↑"true" : Text), c ≠ .char '\r')
  | @int i h =>
    rw [writeAt, ofInt_eq, List.forall_mem_ne']
    exact return_notMem_numberText (isWhole_toDigits _).digits
      (fun _ hc => absurd hc List.not_mem_nil) fun _ hc => absurd hc List.not_mem_nil
  | @float x h =>
    rw [writeAt, List.forall_mem_ne']
    exact return_notMem_floatText h
  | str t =>
    rw [writeAt, List.forall_mem_ne']
    exact return_notMem_quote t
  | arr h ih => exact forall_mem_writeAt_arr hmarks fun v hv => ih v hv _
  | obj hk h ih =>
    exact forall_mem_writeAt_obj hmarks (fun f _ =>
      List.forall_mem_ne'.mpr (return_notMem_quote f.1)) fun f hf => ih f hf _

theorem Readable.return_notMem_write {v : Json} (h : Readable v) : Code.char '\r' ∉ v.write := by
  rw [write, List.mem_append, not_or]
  exact ⟨h.return_notMem 0, by decide⟩

/-- **A readable document that has been written into a file is read from it.** -/
theorem read_plainLines {v : Json} (h : Readable v) {bytes : Bytes}
    (hb : Utf8.encode? v.write = some bytes) : ∃ cs, Utf8.decode? bytes = some cs ∧
      read (Text.ofChars cs).plainLines = .ok v := by
  obtain ⟨cs, hcs, rfl⟩ := isChars_text hb
  refine ⟨cs, Utf8.decode?_encode cs, ?_⟩
  rw [← hcs, plainLines_of_notMem h.return_notMem_write, read_write h]

end UberPackage.Json
