/-
  What one step of copying does to the disk.

  One lemma for each task says what its step has asked and changed when it succeeds, and what it
  leaves to do.  Redirecting comes down to `Rules.redirected?`, whichever file the text is from.

  The other way round, a step can be taken where the disk gives what it asks for
  (`Assembly.gives_redirect` and its siblings), and rounds of steps one after the other
  (`Assembly.gives_rounds`).
-/
import UberPackage.Proofs.Act
import UberPackage.Proofs.Assembly.Mirror
import UberPackage.Proofs.Disk.Change

namespace UberPackage

namespace Redirection

/-- The name of the file is for the records only. -/
theorem collect_file (source : Bytes) (file file' : Text)
    (rs : List (Except RedirectionFault Redirection)) :
    (collect source file rs).2 = (collect source file' rs).2 := by
  induction rs with
  | nil => rfl
  | cons r rs ih =>
    cases r with
    | error e => rfl
    | ok r =>
      rw [collect, collect]
      cases r.edits source with
      | error e => rfl
      | ok es =>
        dsimp only
        rw [ih]

end Redirection

namespace Layout

theorem redirectChars_file {layout : Layout} {strict : Bool} {cs : List Char} {directory : Path}
    {file : Text} {out : Bytes} (h : (layout.redirectChars strict cs directory file).2 = .ok out)
    (file' : Text) : (layout.redirectChars strict cs directory file').2 = .ok out := by
  rw [redirectChars] at h ⊢
  dsimp only at h ⊢
  split
  · next hs =>
    rw [if_pos hs] at h
    exact absurd h (by simp)
  · next hs =>
    rw [if_neg hs] at h
    rw [← h, redirectTree, redirectTree]
    dsimp only
    rw [Redirection.collect_file]

end Layout

namespace Assembly

theorem Rules.redirected?_of_chars {r : Rules} {directory : Path} (file : Text) {bytes out : Bytes}
    {cs cs' : List Char} (hcs : Utf8.decode? bytes = some cs)
    (h : (r.layout.redirectChars r.strict cs directory file).2 = .ok out)
    (hout : Utf8.decode? out = some cs') :
    r.redirected? directory bytes = some (Utf8.encode cs') := by
  have hresult : (r.layout.redirect r.strict (Text.ofChars cs) directory Layout.noFile).2 =
      .ok (Text.ofChars cs') := by
    rw [Layout.redirect, Text.chars?_ofChars]
    dsimp only
    rw [Layout.redirectChars_file h Layout.noFile]
    dsimp only [bind, Except.bind]
    rw [Utf8.text?, hout]
    rfl
  rw [redirected?, hcs]
  show (do
    let t ← (r.layout.redirect r.strict (Text.ofChars cs) directory Layout.noFile).2.toOption
    Utf8.encode? t) = _
  rw [hresult]
  exact Utf8.encode?_ofChars cs'

/-- A source that can be redirected is text, and so is what is made of it. -/
theorem Rules.redirected?_eq_some {r : Rules} {directory : Path} {bytes out : Bytes}
    (h : r.redirected? directory bytes = some out) :
    ∃ cs result cs', Utf8.decode? bytes = some cs ∧
      (∀ file, (r.layout.redirectChars r.strict cs directory file).2 = .ok result) ∧
      Utf8.decode? result = some cs' ∧ out = Utf8.encode cs' := by
  obtain ⟨cs, hcs, h⟩ := Option.bind_eq_some_iff.mp h
  obtain ⟨t, ht, hout⟩ := Option.bind_eq_some_iff.mp h
  rw [Layout.redirect, Text.chars?_ofChars] at ht
  dsimp only at ht
  cases hresult : (r.layout.redirectChars r.strict cs directory Layout.noFile).2 with
  | error e =>
    rw [hresult] at ht
    cases ht
  | ok result =>
    rw [hresult] at ht
    dsimp only [bind, Except.bind] at ht
    cases hcs' : Utf8.decode? result with
    | none =>
      rw [Utf8.text?, hcs'] at ht
      cases ht
    | some cs' =>
      rw [Utf8.text?, hcs'] at ht
      obtain rfl : Text.ofChars cs' = t := Option.some.inj ht
      rw [Utf8.encode?_ofChars] at hout
      exact ⟨cs, result, cs', hcs, fun file => Layout.redirectChars_file hresult file, hcs',
        (Option.some.inj hout).symm⟩

/-! ## Steps that succeed -/

namespace Task

open Act

variable {r : Rules} {source target : Path} {name : Text} {w w' : World} {p : Progress}

theorem make_does (h : Does (step r (.make source target)) w p w') :
    Disk.Makes w.disk w'.disk target ∧ p = { tasks := [.list source target] } := by
  rw [step] at h
  obtain ⟨d, hd, rfl, rfl⟩ := does_change_pure.mp h
  exact ⟨Disk.makeDirectories_ok hd, rfl⟩

theorem list_does (h : Does (step r (.list source target)) w p w') :
    w = w' ∧ ∃ names, w.disk.list source = .ok names ∧
      p = .join (names.map (ofName r source target)) := by
  rw [step, does_bind] at h
  obtain ⟨names, v, ha, h⟩ := h
  obtain ⟨hn, rfl⟩ := does_ask.mp ha
  obtain ⟨rfl, rfl⟩ := does_pure.mp h
  exact ⟨rfl, names, hn, rfl⟩

theorem compare_does {counterpart : Text}
    (h : Does (step r (.compare source target name counterpart)) w p w') :
    w = w' ∧ ∃ b, w.disk.exists? (source / counterpart) = .ok b ∧
      p = if b then { counts := { skipped := 1 } }
        else { tasks := [.classify source target name] } := by
  rw [step, does_bind] at h
  obtain ⟨b, v, ha, h⟩ := h
  obtain ⟨hb, rfl⟩ := does_ask.mp ha
  cases b <;> obtain ⟨rfl, rfl⟩ := does_pure.mp h <;> exact ⟨rfl, _, hb, rfl⟩

theorem classify_does (h : Does (step r (.classify source target name)) w p w') :
    w = w' ∧ ∃ b, w.disk.isDirectory? (source / name) = .ok b ∧
      p = if b then { tasks := [.make (source / name) (target / name)] }
        else if Suffix.isSource name then { tasks := [.redirect source target name] }
        else { tasks := [.copy (source / name) (target / name)] } := by
  rw [step, does_bind] at h
  obtain ⟨b, v, ha, h⟩ := h
  obtain ⟨hb, rfl⟩ := does_ask.mp ha
  refine ⟨?_, b, hb, ?_⟩
  all_goals
    cases b
    · cases hs : Suffix.isSource name <;> simp only [hs, if_true] at h ⊢ <;>
        obtain ⟨rfl, rfl⟩ := does_pure.mp h <;> rfl
    · obtain ⟨rfl, rfl⟩ := does_pure.mp h
      rfl

theorem redirect_does (h : Does (step r (.redirect source target name)) w p w') :
    w.disk = w'.disk ∧ ∃ bytes out, w.disk.read (source / name) = .ok bytes ∧
      r.redirected? target bytes = some out ∧ p = { tasks := [.write (target / name) out] } := by
  rw [step] at h
  dsimp only at h
  rw [does_bind] at h
  obtain ⟨bytes, v, ha, h⟩ := h
  obtain ⟨hbytes, rfl⟩ := does_ask.mp ha
  rw [does_bind] at h
  obtain ⟨cs, v, hd, h⟩ := h
  obtain ⟨hcs, rfl⟩ := does_decode.mp hd
  rw [does_bind] at h
  obtain ⟨_, v, hrecords, h⟩ := h
  have hv := does_records.mp hrecords
  rw [does_bind] at h
  obtain ⟨out, v', ho, h⟩ := h
  obtain ⟨hout, rfl⟩ := does_orFail.mp ho
  rw [does_bind] at h
  obtain ⟨cs', v', hd', h⟩ := h
  obtain ⟨hcs', rfl⟩ := does_decode.mp hd'
  obtain ⟨rfl, rfl⟩ := does_pure.mp h
  exact ⟨by rw [← hv], bytes, _, hbytes, Rules.redirected?_of_chars _ hcs hout hcs', rfl⟩

theorem write_does {bytes : Bytes} (h : Does (step r (.write target bytes)) w p w') :
    Disk.Writes w.disk w'.disk (w.disk.placeOf target) bytes ∧
    p = { counts := { redirected := 1 } } := by
  rw [step] at h
  obtain ⟨d, hd, rfl, rfl⟩ := does_change_pure.mp h
  exact ⟨Disk.writeFile_ok hd, rfl⟩

theorem copy_does (hs : (w.disk.entryAt? (w.disk.placeOf source)).isSome = true)
    (h : Does (step r (.copy source target)) w p w') :
    (∃ bytes, w.disk.entryAt? (w.disk.placeOf source) = some (.file bytes) ∧
      Disk.Writes w.disk w'.disk (w.disk.placeOf target) bytes) ∧
        p = { counts := { copied := 1 } } := by
  rw [step] at h
  obtain ⟨d, hd, rfl, rfl⟩ := does_change_pure.mp h
  exact ⟨Disk.copyFile_ok hs hd, rfl⟩

end Task

/-! ## Steps that can be taken -/

section Gives

open Act

variable {r : Rules} {d d' d'' : Disk}

section Steps

variable {source target : Path}

theorem gives_make (h : d.makeDirectories target = (d', none)) :
    Gives (Task.step r (.make source target)) d { tasks := [.list source target] } d' :=
  (gives_change h).bind gives_pure

theorem gives_list (target : Path) {names : List Text} (h : d.list source = .ok names) :
    Gives (Task.step r (.list source target)) d (.join (names.map (ofName r source target))) d :=
  (gives_ask h).bind gives_pure

/-- A file that is no source is to be copied. -/
theorem gives_classify (target : Path) {name : Text}
    (h : d.isDirectory? (source / name) = .ok false) (hn : Suffix.isSource name = false) :
    Gives (Task.step r (.classify source target name)) d
      { tasks := [.copy (source / name) (target / name)] } d := by
  refine (gives_ask h).bind ?_
  rw [if_neg Bool.false_ne_true, hn, if_neg Bool.false_ne_true]
  exact gives_pure

theorem gives_classify_source (target : Path) {name : Text}
    (h : d.isDirectory? (source / name) = .ok false)
    (hn : Suffix.isSource name = true) :
    Gives (Task.step r (.classify source target name)) d
      { tasks := [.redirect source target name] } d := by
  refine (gives_ask h).bind ?_
  rw [if_neg Bool.false_ne_true, hn, if_pos rfl]
  exact gives_pure

theorem gives_classify_directory (target : Path) {name : Text}
    (h : d.isDirectory? (source / name) = .ok true) :
    Gives (Task.step r (.classify source target name)) d
      { tasks := [.make (source / name) (target / name)] } d := by
  refine (gives_ask h).bind ?_
  rw [if_pos rfl]
  exact gives_pure

theorem gives_redirect {name : Text} {bytes out : Bytes}
    (hread : d.read (source / name) = .ok bytes) (hout : r.redirected? target bytes = some out) :
    Gives (Task.step r (.redirect source target name)) d { tasks := [.write (target / name) out] }
      d := by
  obtain ⟨cs, result, cs', hcs, hresult, hcs', rfl⟩ := Rules.redirected?_eq_some hout
  rw [Task.step]
  dsimp only
  refine (gives_ask hread).bind ((gives_decode hcs).bind ((gives_records _).bind ?_))
  exact (gives_orFail (hresult _)).bind ((gives_decode hcs').bind gives_pure)

theorem gives_write {bytes : Bytes} (h : d.writeFile target bytes = (d', none)) :
    Gives (Task.step r (.write target bytes)) d { counts := { redirected := 1 } } d' :=
  (gives_change h).bind gives_pure

/-- A file whose source is there is passed over. -/
theorem gives_compare (target : Path) (name : Text) {counterpart : Text}
    (h : d.exists? (source / counterpart) = .ok true) :
    Gives (Task.step r (.compare source target name counterpart)) d { counts := { skipped := 1 } }
      d := by
  refine (gives_ask h).bind ?_
  rw [if_pos rfl]
  exact gives_pure

theorem gives_copy (h : d.copyFile source target = (d', none)) :
    Gives (Task.step r (.copy source target)) d { counts := { copied := 1 } } d' :=
  (gives_change h).bind gives_pure

end Steps

/-- A round, and those after it with the tasks that are left. -/
theorem gives_rounds {n : Nat} {t : Task} {ts us : List Task} {ps : List Progress} {c c' : Counts}
    (hround : Gives ((t :: ts).mapM (Task.step r)) d ps d') (htasks : (Progress.join ps).tasks = us)
    (hrest : Gives (rounds r n us) d' c d'') (hc : (Progress.join ps).counts + c = c') :
    Gives (rounds r (n + 1) (t :: ts)) d c' d'' := by
  rw [rounds]
  rw [← htasks] at hrest
  exact hc ▸ hround.bind (hrest.bind gives_pure)

/-- A round of one task. -/
theorem gives_round {n : Nat} {t : Task} {us : List Task} {p : Progress} {c c' : Counts}
    (hstep : Gives (t.step r) d p d') (htasks : (Progress.join [p]).tasks = us)
    (hrest : Gives (rounds r n us) d' c d'') (hc : (Progress.join [p]).counts + c = c') :
    Gives (rounds r (n + 1) [t]) d c' d'' :=
  gives_rounds (hstep.mapM_cons gives_mapM_nil) htasks hrest hc

/-- No task, no round. -/
theorem gives_rounds_nil (n : Nat) : Gives (rounds r n []) d {} d := by
  cases n <;> exact gives_pure

end Gives

end Assembly

end UberPackage
