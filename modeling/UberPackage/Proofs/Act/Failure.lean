/-
  An act that fails.

  An act that fails leaves a world as it has made it up to then (`Act.Fails`); a sequence fails with
  its first part or with the second one (`Act.fails_bind`).  Which failures an act can have is told
  along its text (`Act.FailsOnly`), and also how it fails on a disk (`Act.Breaks`).
-/
import UberPackage.Proofs.Act

namespace UberPackage.Act

variable {α β ε : Type} {w w' : World} {a : Act α} {f : Failure} {P : Failure → Prop}

/-- The act fails in the world, and leaves the other world. -/
def Fails (a : Act α) (w : World) (f : Failure) (w' : World) : Prop := a.runIn w = (.error f, w')

theorem fails_bind {g : α → Act β} :
    Fails (a >>= g) w f w' ↔ Fails a w f w' ∨ ∃ x v, Does a w x v ∧ Fails (g x) v f w' := by
  unfold Does Fails
  show ExceptT.bindCont g (runIn a w).1 (runIn a w).2 = _ ↔ _
  rcases runIn a w with ⟨e | x, v⟩
  · have hfirst : (Except.error e, v) = ((Except.error f, w') : Except Failure α × World) ↔
        e = f ∧ v = w' := by
      rw [Prod.mk.injEq, Except.error.injEq]
    rw [hfirst]
    show (Except.error e, v) = ((Except.error f, w') : Except Failure β × World) ↔ _
    rw [Prod.mk.injEq, Except.error.injEq]
    refine ⟨Or.inl, fun h => h.resolve_right fun ⟨x, u, hx, _⟩ => ?_⟩
    cases congrArg Prod.fst hx
  · refine ⟨fun h => Or.inr ⟨x, v, rfl, h⟩, fun h => ?_⟩
    rcases h with h | ⟨x', v', hx, hf⟩
    · cases congrArg Prod.fst h
    · obtain ⟨hx, rfl⟩ := Prod.mk.inj hx
      cases hx
      exact hf

theorem fails_throw {e : Failure} : Fails (throw e : Act α) w f w' ↔ e = f ∧ w = w' := by
  show (Except.error e, w) = (Except.error f, w') ↔ _
  rw [Prod.mk.injEq, Except.error.injEq]

theorem not_fails_pure {x : α} : ¬ Fails (pure x) w f w' := by
  intro h
  cases congrArg Prod.fst (show (Except.ok x, w) = (Except.error f, w') from h)

theorem fails_orFail {fail : ε → Failure} {v : Except ε α} :
    Fails (orFail fail v) w f w' ↔ (∃ e, v = .error e ∧ fail e = f) ∧ w = w' := by
  cases v with
  | error e =>
    refine fails_throw.trans (and_congr_left' ⟨fun h => ⟨e, rfl, h⟩, fun ⟨e', he, h⟩ => ?_⟩)
    rw [Except.error.inj he, h]
  | ok x => exact ⟨fun h => absurd h not_fails_pure, fun ⟨⟨_, h, _⟩, _⟩ => by cases h⟩

/-- An act either does something or fails. -/
theorem does_or_fails (a : Act α) (w : World) : (∃ x v, Does a w x v) ∨ ∃ f v, Fails a w f v := by
  unfold Does Fails
  rcases runIn a w with ⟨e | x, v⟩
  · exact Or.inr ⟨e, v, rfl⟩
  · exact Or.inl ⟨x, v, rfl⟩

theorem Does.not_fails {x : α} {v : World} (h : Does a w x v) : ¬ Fails a w f w' := fun hf => by
  cases congrArg Prod.fst (h.symm.trans hf)

theorem Gives.not_fails {x : α} {d' : Disk} (h : Gives a w.disk x d') : ¬ Fails a w f w' := by
  obtain ⟨j', hj'⟩ := h w.journal
  exact hj'.not_fails

/-- An act gives one value and leaves one disk. -/
theorem Gives.unique {x y : α} {d' : Disk} (h : Gives a w.disk x d') (hy : Does a w y w') :
    y = x ∧ w'.disk = d' := by
  obtain ⟨j', hj'⟩ := h w.journal
  obtain ⟨hxy, hw⟩ := Prod.mk.inj (hj'.symm.trans hy)
  exact ⟨(Except.ok.inj hxy).symm, by rw [← hw]⟩

/-- After an act that succeeds, what fails is what comes next. -/
theorem Gives.fails_bind {x : α} {d' : Disk} {g : α → Act β} (ha : Gives a w.disk x d')
    (h : Fails (a >>= g) w f w') : ∃ v, v.disk = d' ∧ Fails (g x) v f w' := by
  obtain ⟨y, v, hy, hf⟩ := (Act.fails_bind.mp h).resolve_left ha.not_fails
  obtain ⟨rfl, hv⟩ := ha.unique hy
  exact ⟨v, hv, hf⟩

/-! ## Failures that an act can have -/

/-- Whatever the act fails with is such a failure. -/
def FailsOnly (P : Failure → Prop) (a : Act α) : Prop := ∀ w f w', Fails a w f w' → P f

theorem FailsOnly.bind {g : α → Act β} (ha : FailsOnly P a) (hg : ∀ x, FailsOnly P (g x)) :
    FailsOnly P (a >>= g) := fun w f w' h => by
  rcases fails_bind.mp h with h | ⟨x, v, -, h⟩
  · exact ha _ _ _ h
  · exact hg x _ _ _ h

theorem failsOnly_pure (x : α) : FailsOnly P (pure x) := fun _ _ _ h => absurd h not_fails_pure

theorem failsOnly_throw (h : P f) : FailsOnly P (throw f : Act α) := fun _ _ _ hf =>
  (fails_throw.mp hf).1 ▸ h

theorem failsOnly_orFail {fail : ε → Failure} {v : Except ε α} (h : ∀ e, P (fail e)) :
    FailsOnly P (orFail fail v) := fun _ _ _ hf => by
  obtain ⟨⟨e, -, rfl⟩, -⟩ := fails_orFail.mp hf
  exact h e

theorem failsOnly_records (rs : List Record) : FailsOnly P (records rs) := fun w f w' h => by
  cases congrArg Prod.fst
    (show (Except.ok (), { w with journal := w.journal ++ rs }) = (Except.error f, w') from h)

section Files

variable (h : ∀ e, P (.file e))

include h

theorem failsOnly_ask (query : Disk → Except FileFault α) :
    FailsOnly P (ask query) := fun w f w' hf =>
  failsOnly_orFail (v := query w.disk) h w f w' hf

theorem failsOnly_change (change : Disk → Disk.Outcome) : FailsOnly P (Act.change change) := by
  intro w f w' hf
  have hrun : Fails (Act.change fun _ => change w.disk) w f w' := hf
  cases hc : change w.disk with
  | mk d fault =>
    rw [hc] at hrun
    cases fault with
    | none => cases congrArg Prod.fst (show (Except.ok (), { w with disk := d }) =
      (Except.error f, w') from hrun)
    | some e =>
      obtain ⟨rfl, -⟩ :=
        fails_throw.mp (show Fails (throw (.file e) : Act Unit) { w with disk := d } f w' from hrun)
      exact h e

end Files

theorem failsOnly_decode (h : P .undecodable) (bytes : Bytes) : FailsOnly P (decode bytes) := by
  unfold decode
  split
  · exact failsOnly_pure _
  · exact failsOnly_throw h

theorem failsOnly_encode (h : P .unencodable) (t : Text) : FailsOnly P (encode t) := by
  unfold encode
  split
  · exact failsOnly_pure _
  · exact failsOnly_throw h

theorem failsOnly_writeText (he : P .unencodable) (hf : ∀ e, P (.file e)) (p : Path) (t : Text) :
    FailsOnly P (writeText p t) :=
  (failsOnly_encode he t).bind fun _ => failsOnly_change hf _

theorem failsOnly_mapM {g : α → Act β} {l : List α} (h : ∀ x ∈ l, FailsOnly P (g x)) :
    FailsOnly P (l.mapM g) := by
  induction l with
  | nil =>
    rw [List.mapM_nil]
    exact failsOnly_pure _
  | cons x l ih =>
    rw [List.mapM_cons]
    refine (h x List.mem_cons_self).bind fun _ => ?_
    exact (ih fun y hy => h y (List.mem_cons_of_mem _ hy)).bind fun _ => failsOnly_pure _

theorem failsOnly_get : FailsOnly P (get : Act World) := fun w f w' h => by
  cases congrArg Prod.fst (show (Except.ok w, w) =
    ((Except.error f, w') : Except Failure World × World) from h)

theorem failsOnly_filterM {g : α → Act Bool} {l : List α} (h : ∀ x, FailsOnly P (g x)) :
    FailsOnly P (l.filterM g) := by
  have haux : ∀ (l acc : List α), FailsOnly P (l.filterAuxM g acc) := by
    intro l
    induction l with
    | nil => exact fun acc => failsOnly_pure _
    | cons x l ih => exact fun acc => (h x).bind fun b => ih _
  exact (haux l []).bind fun _ => failsOnly_pure _

/-- A condition that an act must not meet. -/
theorem failsOnly_guard {b : Bool} {a : Act α} (hf : P f) (ha : FailsOnly P a) :
    FailsOnly P (if b then throw f >>= fun _ : Unit => a else a) := by
  split
  · exact (failsOnly_throw hf).bind fun _ => ha
  · exact ha

theorem failsOnly_readText (hfile : ∀ e, P (.file e)) (hbytes : P .undecodable) (p : Path) :
    FailsOnly P (readText p) :=
  (failsOnly_ask hfile _).bind fun _ => (failsOnly_decode hbytes _).bind fun _ => failsOnly_pure _

theorem failsOnly_readDocument (hfile : ∀ e, P (.file e)) (hbytes : P .undecodable)
    (htext : ∀ e, P (.document e)) (p : Path) : FailsOnly P (readDocument p) :=
  (failsOnly_readText hfile hbytes p).bind fun _ => failsOnly_orFail htext

/-! ## Whatever the journal says -/

section Breaks

variable {d d' : Disk}

/-- The file is there, and it is no document. -/
inductive Garbled (d : Disk) (p : Path) : Failure → Prop where
  | bytes {bytes : Bytes} (read : d.read p = .ok bytes) (garbled : Utf8.decode? bytes = none) :
      Garbled d p .undecodable
  | text {bytes : Bytes} {cs : List Char} {f : Json.Fault} (read : d.read p = .ok bytes)
      (decoded : Utf8.decode? bytes = some cs)
      (garbled : Json.read (Text.ofChars cs).plainLines = .error f) :
      Garbled d p (.document f)

/-- On the disk, the act fails in one way, whatever the journal says. -/
def Breaks (a : Act α) (d : Disk) (f : Failure) : Prop := ∀ j, ∃ v, Fails a ⟨d, j⟩ f v

theorem Does.fails_bind {a : Act α} {g : α → Act β} {x : α} {w v : World} (ha : Does a w x v)
    (hg : Breaks (g x) v.disk f) : ∃ v', Fails (a >>= g) w f v' :=
  (hg v.journal).imp fun _ hv => Act.fails_bind.mpr (Or.inr ⟨x, v, ha, hv⟩)

theorem Gives.breaks {a : Act α} {g : α → Act β} {x : α} (ha : Gives a d x d')
    (hg : Breaks (g x) d' f) :
    Breaks (a >>= g) d f := fun j => by
  obtain ⟨j', hj'⟩ := ha j
  exact hj'.fails_bind hg

theorem Breaks.bind {a : Act α} (ha : Breaks a d f) (g : α → Act β) :
    Breaks (a >>= g) d f := fun j =>
  (ha j).imp fun _ hv => fails_bind.mpr (Or.inl hv)

theorem breaks_throw : Breaks (throw f : Act α) d f := fun _ => ⟨_, fails_throw.mpr ⟨rfl, rfl⟩⟩

theorem breaks_ask {query : Disk → Except FileFault α} {e : FileFault} (h : query d = .error e) :
    Breaks (ask query) d (.file e) := fun j =>
  ⟨⟨d, j⟩,
    fails_bind.mpr (Or.inr ⟨_, _, does_get.mpr ⟨rfl, rfl⟩, fails_orFail.mpr ⟨⟨e, h, rfl⟩, rfl⟩⟩)⟩

theorem breaks_decode {bytes : Bytes} (h : Utf8.decode? bytes = none) :
    Breaks (decode bytes) d .undecodable := by
  unfold decode
  rw [h]
  exact breaks_throw

theorem breaks_readText {p : Path} {bytes : Bytes} (hread : d.read p = .ok bytes)
    (h : Utf8.decode? bytes = none) : Breaks (readText p) d .undecodable :=
  (gives_ask hread).breaks ((breaks_decode h).bind _)

theorem Garbled.breaks {p : Path} (h : Garbled d p f) : Breaks (readDocument p) d f := by
  cases h with
  | bytes hread hbytes => exact (breaks_readText hread hbytes).bind _
  | @text bytes cs f hread hcs hjson =>
    have htext : Gives (readText p) d (Text.ofChars cs).plainLines d :=
      (gives_ask hread).bind ((gives_decode hcs).bind gives_pure)
    exact htext.breaks fun j => ⟨_, fails_orFail.mpr ⟨⟨f, hjson, rfl⟩, rfl⟩⟩

/-- Along a list, up to the first act that fails. -/
theorem breaks_mapM {g : α → Act β} {before after : List α} {x : α} {ys : List β}
    (hbefore : List.Forall₂ (fun a y => Gives (g a) d y d) before ys) (hx : Breaks (g x) d f) :
    Breaks ((before ++ x :: after).mapM g) d f := by
  rw [List.mapM_append, List.mapM_cons]
  exact (gives_mapM hbefore).breaks ((hx.bind _).bind _)

end Breaks

end UberPackage.Act
