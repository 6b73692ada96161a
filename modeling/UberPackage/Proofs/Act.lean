/-
  What an act does to a world.

  Each building block of acts has one lemma that says when it succeeds in a world, what it gives and
  which world it leaves.  An act that succeeds is taken apart with them, from its first step on.

  No act reads the journal; so what an act gives can be said of the disk alone (`Act.Gives`).
-/
import Mathlib.Data.List.Forall2
import UberPackage.World

namespace UberPackage.Act

variable {α β ε : Type} {w w' : World}

/-- The act succeeds in the world, gives the value and leaves the other world. -/
def Does (a : Act α) (w : World) (x : α) (w' : World) : Prop := a.runIn w = (.ok x, w')

theorem does_pure {x y : α} : Does (pure x) w y w' ↔ x = y ∧ w = w' := by
  show (Except.ok x, w) = (Except.ok y, w') ↔ _
  rw [Prod.mk.injEq, Except.ok.injEq]

theorem does_bind {a : Act α} {f : α → Act β} {y : β} :
    Does (a >>= f) w y w' ↔ ∃ x v, Does a w x v ∧ Does (f x) v y w' := by
  unfold Does
  show ExceptT.bindCont f (runIn a w).1 (runIn a w).2 = _ ↔ _
  rcases runIn a w with ⟨e | x, v⟩
  · refine ⟨fun h => ?_, fun ⟨_, _, h, _⟩ => ?_⟩
    · cases congrArg Prod.fst h
    · cases congrArg Prod.fst h
  · refine ⟨fun h => ⟨x, v, rfl, h⟩, fun ⟨x', v', h, hf⟩ => ?_⟩
    obtain ⟨hx, rfl⟩ := Prod.mk.inj h
    cases hx
    exact hf

/-- After an act that succeeds comes what is left of a sequence. -/
theorem Does.runIn_bind {a : Act α} {f : α → Act β} {x : α} (h : Does a w x w') :
    (a >>= f).runIn w = (f x).runIn w' := by
  show ExceptT.bindCont f (runIn a w).1 (runIn a w).2 = _
  rw [show runIn a w = (.ok x, w') from h]
  rfl

theorem does_throw {e : Failure} {x : α} : ¬ Does (throw e) w x w' := by
  intro h
  cases congrArg Prod.fst (show (Except.error e, w) = (Except.ok x, w') from h)

theorem does_get {v : World} : Does get w v w' ↔ w = v ∧ w = w' := by
  show (Except.ok w, w) = (Except.ok v, w') ↔ _
  rw [Prod.mk.injEq, Except.ok.injEq]

theorem does_modify {f : World → World} {x : Unit} : Does (modify f) w x w' ↔ f w = w' := by
  show (Except.ok (), f w) = (Except.ok x, w') ↔ _
  rw [Prod.mk.injEq]
  exact and_iff_right rfl

theorem does_orFail {fail : ε → Failure} {v : Except ε α} {x : α} :
    Does (orFail fail v) w x w' ↔ v = .ok x ∧ w = w' := by
  cases v with
  | error e => exact ⟨fun h => absurd h does_throw, fun h => by cases h.1⟩
  | ok y => rw [Except.ok.injEq]; exact does_pure

theorem does_records {rs : List Record} {x : Unit} :
    Does (records rs) w x w' ↔ { w with journal := w.journal ++ rs } = w' := does_modify

theorem does_ask {query : Disk → Except FileFault α} {x : α} :
    Does (ask query) w x w' ↔ query w.disk = .ok x ∧ w = w' := by
  unfold ask
  rw [does_bind]
  refine ⟨fun ⟨v, v', hv, h⟩ => ?_, fun h => ⟨w, w, does_get.mpr ⟨rfl, rfl⟩, does_orFail.mpr h⟩⟩
  obtain ⟨rfl, rfl⟩ := does_get.mp hv
  exact does_orFail.mp h

theorem does_change {change : Disk → Disk.Outcome} {x : Unit} :
    Does (Act.change change) w x w' ↔
      ∃ d, change w.disk = (d, none) ∧ { w with disk := d } = w' := by
  unfold Act.change
  rw [does_bind]
  constructor
  · rintro ⟨v, v', hv, h⟩
    obtain ⟨rfl, rfl⟩ := does_get.mp hv
    rcases hc : change w.disk with ⟨d, _ | f⟩
    · rw [hc, does_bind] at h
      obtain ⟨_, u, hu, h⟩ := h
      exact ⟨d, rfl, (does_modify.mp hu).trans (does_pure.mp h).2⟩
    · rw [hc, does_bind] at h
      obtain ⟨_, u, hu, h⟩ := h
      exact absurd h does_throw
  · rintro ⟨d, hc, rfl⟩
    refine ⟨w, w, does_get.mpr ⟨rfl, rfl⟩, ?_⟩
    rw [hc, does_bind]
    exact ⟨(), _, does_modify.mpr rfl, does_pure.mpr ⟨rfl, rfl⟩⟩

theorem does_change_pure {change : Disk → Disk.Outcome} {x y : α} :
    Does (Act.change change >>= fun _ => pure x) w y w' ↔
      ∃ d, change w.disk = (d, none) ∧ { w with disk := d } = w' ∧ x = y := by
  rw [does_bind]
  constructor
  · rintro ⟨_, v, hc, h⟩
    obtain ⟨d, hd, rfl⟩ := does_change.mp hc
    obtain ⟨rfl, rfl⟩ := does_pure.mp h
    exact ⟨d, hd, rfl, rfl⟩
  · rintro ⟨d, hd, rfl, rfl⟩
    exact ⟨(), _, does_change.mpr ⟨d, hd, rfl⟩, does_pure.mpr ⟨rfl, rfl⟩⟩

theorem does_decode {bytes : Bytes} {cs : List Char} :
    Does (decode bytes) w cs w' ↔ Utf8.decode? bytes = some cs ∧ w = w' := by
  unfold decode
  cases Utf8.decode? bytes with
  | none => exact ⟨fun h => absurd h does_throw, fun h => by cases h.1⟩
  | some ds => rw [Option.some.injEq]; exact does_pure

theorem does_encode {t : Text} {bytes : Bytes} :
    Does (encode t) w bytes w' ↔ Utf8.encode? t = some bytes ∧ w = w' := by
  unfold encode
  cases Utf8.encode? t with
  | none => exact ⟨fun h => absurd h does_throw, fun h => by cases h.1⟩
  | some bs => rw [Option.some.injEq]; exact does_pure

/-! ## Lists of acts -/

theorem does_mapM_cons {f : α → Act β} {a : α} {as : List α} {ys : List β} :
    Does ((a :: as).mapM f) w ys w' ↔
      ∃ y v ys', Does (f a) w y v ∧ Does (as.mapM f) v ys' w' ∧ ys = y :: ys' := by
  rw [List.mapM_cons, does_bind]
  constructor
  · rintro ⟨y, v, hy, h⟩
    obtain ⟨ys', u, hys, h⟩ := does_bind.mp h
    obtain ⟨rfl, rfl⟩ := does_pure.mp h
    exact ⟨y, v, ys', hy, hys, rfl⟩
  · rintro ⟨y, v, ys', hy, hys, rfl⟩
    exact ⟨y, v, hy, does_bind.mpr ⟨ys', w', hys, does_pure.mpr ⟨rfl, rfl⟩⟩⟩

/-- Acts along a list, up to one of them, that one, and the others. -/
theorem does_mapM_split {f : α → Act β} {as bs : List α} {a : α} {ys : List β}
    (h : Does ((as ++ a :: bs).mapM f) w ys w') :
    ∃ ys₁ v y v' ys₂, Does (as.mapM f) w ys₁ v ∧ Does (f a) v y v' ∧
    Does (bs.mapM f) v' ys₂ w' := by
  induction as generalizing w ys with
  | nil =>
    obtain ⟨y, v, ys', hy, hys, -⟩ := does_mapM_cons.mp h
    exact ⟨[], w, y, v, ys', does_pure.mpr ⟨rfl, rfl⟩, hy, hys⟩
  | cons b as ih =>
    obtain ⟨y, v, ys', hy, hys, -⟩ := does_mapM_cons.mp h
    obtain ⟨ys₁, u, z, u', ys₂, has, ha, hbs⟩ := ih hys
    exact ⟨y :: ys₁, u, z, u', ys₂, does_mapM_cons.mpr ⟨y, v, ys₁, hy, has, rfl⟩, ha, hbs⟩

/-- What a query says of the first thing is said of all that are the same. -/
theorem exists_such_cons {query : α → Disk → Except FileFault Bool} {d : Disk} {a : α} {l : List α}
    {b : Bool} (ha : query a d = .ok b) {such : α → Bool} (hl : ∀ c ∈ l, query c d = .ok (such c)) :
    ∃ such' : α → Bool, (∀ c ∈ a :: l, query c d = .ok (such' c)) ∧ such' a = b ∧
      l.filter such' = l.filter such := by
  classical
  refine ⟨fun c => if c = a then b else such c, fun c hc => ?_, if_pos rfl,
    List.filter_congr fun c hc => ?_⟩
  · by_cases hca : c = a
    · rw [hca, ha]
      exact congrArg Except.ok (if_pos rfl).symm
    · rw [hl c ((List.mem_cons.mp hc).resolve_left hca)]
      exact congrArg Except.ok (if_neg hca).symm
  · split
    · next hca =>
      subst hca
      exact Except.ok.inj (ha.symm.trans (hl c hc))
    · rfl

theorem does_filterAuxM_ask {query : α → Disk → Except FileFault Bool} {l acc ys : List α} :
    Does (l.filterAuxM (fun a => ask (query a)) acc) w ys w' ↔
      w = w' ∧ ∃ such : α → Bool, (∀ a ∈ l, query a w.disk = .ok (such a)) ∧
        ys = (l.filter such).reverse ++ acc := by
  induction l generalizing acc ys with
  | nil =>
    rw [List.filterAuxM, does_pure]
    exact ⟨fun ⟨h, hw⟩ => ⟨hw, fun _ => true, fun _ ha => absurd ha List.not_mem_nil, h.symm⟩,
      fun ⟨hw, _, _, h⟩ => ⟨h.symm, hw⟩⟩
  | cons a l ih =>
    have hcons : ∀ such : α → Bool, ((a :: l).filter such).reverse ++ acc =
        (l.filter such).reverse ++ (bif such a then a :: acc else acc) := by
      intro such
      rw [List.filter_cons]
      cases such a with
      | true =>
        rw [if_pos rfl, List.reverse_cons, List.append_assoc]
        rfl
      | false => rfl
    rw [List.filterAuxM, does_bind]
    constructor
    · rintro ⟨b, v, hb, h⟩
      obtain ⟨hquery, rfl⟩ := does_ask.mp hb
      obtain ⟨hw, such, hsuch, rfl⟩ := ih.mp h
      obtain ⟨such', hsuch', rfl, hfilter⟩ := exists_such_cons hquery hsuch
      exact ⟨hw, such', hsuch', by rw [hcons, hfilter]⟩
    · rintro ⟨rfl, such, hsuch, rfl⟩
      refine ⟨such a, w, does_ask.mpr ⟨hsuch a List.mem_cons_self, rfl⟩, ?_⟩
      exact ih.mpr ⟨rfl, such, fun c hc => hsuch c (List.mem_cons_of_mem _ hc), hcons such⟩

/-- The things that a query says are such. -/
theorem does_filterM_ask {query : α → Disk → Except FileFault Bool} {l ys : List α} :
    Does (l.filterM fun a => ask (query a)) w ys w' ↔
      w = w' ∧ ∃ such : α → Bool, (∀ a ∈ l, query a w.disk = .ok (such a)) ∧
      ys = l.filter such := by
  rw [List.filterM, does_bind]
  constructor
  · rintro ⟨zs, v, hzs, h⟩
    obtain ⟨rfl, rfl⟩ := does_pure.mp h
    obtain ⟨hw, such, hsuch, rfl⟩ := does_filterAuxM_ask.mp hzs
    exact ⟨hw, such, hsuch, by rw [List.append_nil, List.reverse_reverse]⟩
  · rintro ⟨rfl, such, hsuch, rfl⟩
    refine ⟨_, w, does_filterAuxM_ask.mpr ⟨rfl, such, hsuch, rfl⟩, does_pure.mpr ⟨?_, rfl⟩⟩
    rw [List.append_nil, List.reverse_reverse]

/-- Acts along a list that leave the disk alone. -/
theorem forall₂_of_does_mapM {f : α → Act β} {P : Disk → α → β → Prop} {l : List α} {ys : List β}
    (hf : ∀ a ∈ l, ∀ {v v' : World} {y : β}, Does (f a) v y v' → v'.disk = v.disk ∧ P v.disk a y)
    (h : Does (l.mapM f) w ys w') : w'.disk = w.disk ∧ List.Forall₂ (P w.disk) l ys := by
  induction l generalizing w ys with
  | nil =>
    obtain ⟨rfl, rfl⟩ := does_pure.mp h
    exact ⟨rfl, .nil⟩
  | cons a l ih =>
    obtain ⟨y, v, ys', hy, hys, rfl⟩ := does_mapM_cons.mp h
    obtain ⟨hv, hP⟩ := hf a List.mem_cons_self hy
    obtain ⟨hw', hall⟩ := ih (fun b hb => hf b (List.mem_cons_of_mem _ hb)) hys
    rw [hv] at hw' hall
    exact ⟨hw', .cons hP hall⟩

/-! ## Files and documents -/

theorem does_writeText {p : Path} {t : Text} {x : Unit} :
    Does (writeText p t) w x w' ↔ ∃ bytes d, Utf8.encode? t = some bytes ∧
      w.disk.writeFile p bytes = (d, none) ∧ { w with disk := d } = w' := by
  unfold writeText
  rw [does_bind]
  constructor
  · rintro ⟨bytes, v, hb, h⟩
    obtain ⟨hbytes, rfl⟩ := does_encode.mp hb
    obtain ⟨d, hd, hw⟩ := does_change.mp h
    exact ⟨bytes, d, hbytes, hd, hw⟩
  · rintro ⟨bytes, d, hbytes, hd, hw⟩
    exact ⟨bytes, w, does_encode.mpr ⟨hbytes, rfl⟩, does_change.mpr ⟨d, hd, hw⟩⟩

/-- The file holds the document. -/
def Holds (d : Disk) (p : Path) (v : Json) : Prop :=
  ∃ bytes cs, d.read p = .ok bytes ∧ Utf8.decode? bytes = some cs ∧
    Json.read (Text.ofChars cs).plainLines = .ok v

theorem does_readDocument {p : Path} {v : Json} :
    Does (readDocument p) w v w' ↔ Holds w.disk p v ∧ w = w' := by
  unfold readDocument readText
  simp only [does_bind, does_ask, does_decode, does_orFail, does_pure]
  constructor
  · rintro ⟨t, u, ⟨bytes, u', ⟨hread, rfl⟩, cs, u'', ⟨hdecode, rfl⟩, rfl, rfl⟩, hjson, rfl⟩
    exact ⟨⟨bytes, cs, hread, hdecode, hjson⟩, rfl⟩
  · rintro ⟨⟨bytes, cs, hread, hdecode, hjson⟩, rfl⟩
    exact ⟨_, w, ⟨bytes, w, ⟨hread, rfl⟩, cs, w, ⟨hdecode, rfl⟩, rfl, rfl⟩, hjson, rfl⟩

/-! ## Whatever the journal says -/

/-- On the disk, the act succeeds, gives the value and leaves the other disk. -/
def Gives (a : Act α) (d : Disk) (x : α) (d' : Disk) : Prop := ∀ j, ∃ j', Does a ⟨d, j⟩ x ⟨d', j'⟩

section Gives

variable {d d' d'' : Disk} {x : α}

theorem gives_pure : Gives (pure x) d x d := fun j => ⟨j, does_pure.mpr ⟨rfl, rfl⟩⟩

theorem Gives.bind {a : Act α} {f : α → Act β} {y : β} (ha : Gives a d x d')
    (hf : Gives (f x) d' y d'') :
    Gives (a >>= f) d y d'' := fun j => by
  obtain ⟨j', hj'⟩ := ha j
  obtain ⟨j'', hj''⟩ := hf j'
  exact ⟨j'', does_bind.mpr ⟨x, _, hj', hj''⟩⟩

theorem gives_records (rs : List Record) : Gives (records rs) d () d := fun j =>
  ⟨j ++ rs, does_records.mpr rfl⟩

theorem gives_orFail {fail : ε → Failure} {v : Except ε α} (h : v = .ok x) :
    Gives (orFail fail v) d x d :=
  fun j => ⟨j, does_orFail.mpr ⟨h, rfl⟩⟩

theorem gives_decode {bytes : Bytes} {cs : List Char} (h : Utf8.decode? bytes = some cs) :
    Gives (decode bytes) d cs d := fun j => ⟨j, does_decode.mpr ⟨h, rfl⟩⟩

theorem gives_ask {query : Disk → Except FileFault α} (h : query d = .ok x) :
    Gives (ask query) d x d :=
  fun j => ⟨j, does_ask.mpr ⟨h, rfl⟩⟩

theorem gives_change {change : Disk → Disk.Outcome} (h : change d = (d', none)) :
    Gives (Act.change change) d () d' :=
  fun j => ⟨j, does_change.mpr ⟨d', h, rfl⟩⟩

theorem gives_writeText {p : Path} {t : Text} {bytes : Bytes} (hb : Utf8.encode? t = some bytes)
    (h : d.writeFile p bytes = (d', none)) : Gives (writeText p t) d () d' :=
  fun j => ⟨j, does_writeText.mpr ⟨bytes, d', hb, h, rfl⟩⟩

theorem gives_readDocument {p : Path} {v : Json} (h : Holds d p v) : Gives (readDocument p) d v d :=
  fun j => ⟨j, does_readDocument.mpr ⟨h, rfl⟩⟩

theorem gives_filterM_ask {query : α → Disk → Except FileFault Bool} {l : List α} {such : α → Bool}
    (h : ∀ a ∈ l, query a d = .ok (such a)) :
    Gives (l.filterM fun a => ask (query a)) d (l.filter such) d :=
  fun j => ⟨j, does_filterM_ask.mpr ⟨rfl, such, h, rfl⟩⟩

theorem gives_mapM_nil {f : α → Act β} : Gives ([].mapM f) d [] d := by
  rw [List.mapM_nil]
  exact gives_pure

theorem Gives.mapM_cons {f : α → Act β} {a : α} {as : List α} {y : β} {ys : List β}
    (ha : Gives (f a) d y d') (has : Gives (as.mapM f) d' ys d'') :
    Gives ((a :: as).mapM f) d (y :: ys) d'' := by
  rw [List.mapM_cons]
  exact ha.bind (has.bind gives_pure)

theorem gives_mapM {f : α → Act β} {l : List α} {ys : List β}
    (h : List.Forall₂ (fun a y => Gives (f a) d y d) l ys) : Gives (l.mapM f) d ys d := by
  induction h with
  | nil => exact gives_mapM_nil
  | cons ha _ ih => exact ha.mapM_cons ih

end Gives

end UberPackage.Act
