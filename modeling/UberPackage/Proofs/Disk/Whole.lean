/-
  Files that change as a whole.

  A file is written by filling a new one beside it and moving that over it.  Here filling may stop
  after any number of bytes (`Disk.overwriteUpTo`); without a stop it is what a run does.  Wherever
  it stops, and whatever the disk refuses, the target has the contents as a whole and nothing else
  has changed, or the disk is the one from before (`Disk.Whole`): the new file is gone.  A text that
  has no bytes changes nothing either (`Act.Whole`).  The main statement is `Act.files_whole`.
-/
import UberPackage.Proofs.Act
import UberPackage.Proofs.Disk.Change

namespace UberPackage

namespace Disk

/-! ## Putting and dropping -/

variable {d : Disk} {q : Place}

theorem put_put (d : Disk) (q : Place) (e e' : Entry) : (d.put q e).put q e' = d.put q e' := by
  simp [put]

/-- What is put where nothing stood and dropped again leaves the disk as it was. -/
theorem drop_put (h : d.entryAt? q = none) (e : Entry) : (d.put q e).drop q = d := by
  have hq := ne_nil_of_free h
  have hkeys : ∀ x ∈ d.entries, (x.1 != q) = true := fun x hx => bne_iff_ne.mpr fun he => by
    have hmem := mem_keys_iff.mp (List.mem_map_of_mem (f := Prod.fst) hx)
    rw [he, ← entryAt?_of_ne hq, h] at hmem
    cases hmem
  simp only [put, drop, List.filter_append, List.filter_singleton, bne_self_eq_false, cond_false,
    List.append_nil, List.filter_eq_self.mpr hkeys]

/-- What is put where nothing stood changes no way. -/
theorem locate_put (h : d.entryAt? q = none) (e : Entry) {p : Path} {r : Place}
    (hl : d.locate p = .ok r) : (d.put q e).locate p = .ok r := by
  have hq := ne_nil_of_free h
  obtain ⟨hname, hleads, rfl⟩ := locate_eq_ok.mp hl
  refine locate_eq_ok.mpr ⟨hname, hleads.mono rfl fun x hx => ?_, rfl⟩
  rw [entryAt?_put e hq, if_neg fun he => ?_, hx]
  rw [he, h] at hx
  cases hx

/-- What is read of another place than that of a file that has been put was there before. -/
theorem read_of_put (h : d.entryAt? q = none) {contents : Bytes} {p : Path} (hp : d.placeOf p ≠ q)
    {bytes : Bytes} (hr : (d.put q (.file contents)).read p = .ok bytes) :
    d.read p = .ok bytes := by
  have hq := ne_nil_of_free h
  obtain ⟨hlocate, hentry⟩ := read_eq_ok hr
  rw [show (d.put q (.file contents)).placeOf p = d.placeOf p from rfl, entryAt?_put _ hq,
    if_neg hp] at hentry
  obtain ⟨hname, hleads, -⟩ := locate_eq_ok.mp hlocate
  have hdirs : ∀ x, (d.put q (.file contents)).entryAt? x = some .dir →
      d.entryAt? x = some .dir := fun x hx => by
    rw [entryAt?_put _ hq] at hx
    split at hx
    · cases hx
    · exact hx
  have hleads' : d.Leads p := hleads.mono rfl hdirs
  rw [Disk.read, Disk.stat, locate_eq_ok.mpr ⟨hname, hleads', rfl⟩, except_ok_bind, hentry]
  rfl

/-! ## Filling, up to a stop -/

/-- Where filling a file stops: after some bytes, with a fault. -/
structure Stop where
  after : Nat
  fault : FileFault

/-- Puts contents into a file that is there, or their first bytes up to a stop. -/
def overwriteUpTo (stop : Option Stop) (bytes : Bytes) (d : Disk) (p : Path) : Outcome :=
  match stop with
  | none => d.overwrite bytes p
  | some s => Outcome.andThen (d.overwrite (bytes.take s.after) p) fun d => (d, some s.fault)

/-- Puts the contents of a file into another that is there, or their first bytes up to a stop. -/
def overwriteFromUpTo (stop : Option Stop) (source : Path) (d : Disk) (p : Path) : Outcome :=
  match d.read source with
  | .ok bytes => d.overwriteUpTo stop bytes p
  | .error f => (d, some f)

/-- Writes a file as a whole; filling may stop. -/
def writeFileUpTo (stop : Option Stop) (d : Disk) (target : Path) (bytes : Bytes) : Outcome :=
  d.atomically target (overwriteUpTo stop bytes)

/-- Copies a file as a whole; filling may stop. -/
def copyFileUpTo (stop : Option Stop) (d : Disk) (source target : Path) : Outcome :=
  d.atomically target (overwriteFromUpTo stop source)

theorem writeFileUpTo_none (d : Disk) (target : Path) (bytes : Bytes) :
    d.writeFileUpTo none target bytes = d.writeFile target bytes := rfl

theorem copyFileUpTo_none (d : Disk) (source target : Path) :
    d.copyFileUpTo none source target = d.copyFile source target := rfl

/-- What filling a new file leaves: the disk with a file in its place, and with all contents unless
there is a fault. -/
def Leaves (d : Disk) (place : Place) (contents : Bytes → Prop) (o : Outcome) : Prop :=
  ∃ bytes f, o = (d.put place (.file bytes), f) ∧ (f = none → contents bytes)

section Filling

variable {temp : Path} {bytes : Bytes} (h : d.entryAt? q = none) (hl : d.locate temp = .ok q)

include h hl

theorem overwrite_new (empty bytes : Bytes) :
    overwrite bytes (d.put q (.file empty)) temp = (d.put q (.file bytes), none) := by
  rw [overwrite, locate_put h _ hl, except_ok_bind, put_put]
  rfl

theorem leaves_overwriteUpTo (stop : Option Stop) (empty bytes : Bytes) :
    Leaves d q (· = bytes) (overwriteUpTo stop bytes (d.put q (.file empty)) temp) := by
  cases stop with
  | none => exact ⟨bytes, none, overwrite_new h hl empty bytes, fun _ => rfl⟩
  | some s =>
    refine ⟨bytes.take s.after, some s.fault, ?_, fun hf => by cases hf⟩
    rw [overwriteUpTo, overwrite_new h hl]
    rfl

theorem leaves_overwriteFromUpTo (stop : Option Stop) (source : Path) (empty : Bytes) :
    Leaves d q (fun bytes => d.placeOf source ≠ q → d.read source = .ok bytes)
      (overwriteFromUpTo stop source (d.put q (.file empty)) temp) := by
  rw [overwriteFromUpTo]
  cases hread : (d.put q (.file empty)).read source with
  | error f => exact ⟨empty, some f, rfl, fun hf => by cases hf⟩
  | ok bytes =>
    obtain ⟨contents, f, ho, hcontents⟩ := leaves_overwriteUpTo h hl stop empty bytes
    refine ⟨contents, f, ho, fun hf hsource => ?_⟩
    rw [hcontents hf]
    exact read_of_put h hsource hread

end Filling

/-! ## Whole or not at all -/

/-- The target has been given contents as a whole, and nothing else has changed; or there is a
fault, and nothing has changed. -/
inductive Whole (d : Disk) (target : Path) (contents : Bytes → Prop) : Outcome → Prop where
  | done {d' : Disk} {bytes : Bytes} (holds : contents bytes) (reads : d'.read target = .ok bytes)
      (writes : Writes d d' (d.placeOf target) bytes) : Whole d target contents (d', none)
  | refused (f : FileFault) : Whole d target contents (d, some f)

theorem Whole.mono {target : Path} {contents more : Bytes → Prop} {o : Outcome}
    (h : Whole d target contents o) (hm : ∀ bytes, contents bytes → more bytes) :
    Whole d target more o := by
  cases h with
  | done holds reads writes => exact .done (hm _ holds) reads writes
  | refused f => exact .refused f

/-- However a new file is filled, moving it or removing it changes the target as a whole or
nothing. -/
theorem whole_atomically {target : Path} {contents : Bytes → Prop} {fill : Disk → Path → Outcome}
    (hfill : ∀ q, d.entryAt? q = none → d.locate (d.temporary target) = .ok q →
      Leaves d q contents (fill (d.put q (.file [])) (d.temporary target))) :
    Whole d target contents (d.atomically target fill) := by
  rw [atomically]
  dsimp only
  generalize d.temporary target = temp at hfill
  cases hcreate : d.create temp with
  | error f => exact .refused f
  | ok created =>
    rw [create, except_bind_eq_ok] at hcreate
    obtain ⟨q, hlocate, hcreate⟩ := hcreate
    obtain rfl := (locate_eq_ok.mp hlocate).2.2
    split at hcreate
    · cases hcreate
    · next hfree =>
      obtain ⟨bytes, fault, hleft, hcontents⟩ := hfill _ hfree hlocate
      rw [← Except.ok.inj hcreate]
      dsimp only
      rw [hleft]
      -- with the new file removed, the disk is the first one
      have hremove : (d.put (d.placeOf temp) (.file bytes)).remove temp = d := by
        rw [remove, locate_put hfree _ hlocate]
        exact drop_put hfree _
      cases fault with
      | some f =>
        dsimp only [Outcome.andThen]
        rw [hremove]
        exact .refused f
      | none =>
        rw [Outcome.andThen]
        cases hmove : (d.put (d.placeOf temp) (.file bytes)).move temp target with
        | error f =>
          rw [outcome, hremove]
          exact .refused f
        | ok d' =>
          have hput := (put_put d (d.placeOf temp) (.file []) (.file bytes)).symm
          exact .done (hcontents rfl) (read_of_move hfree hput hmove) (move_ok hfree hput hmove)

theorem whole_writeFileUpTo (stop : Option Stop) (d : Disk) (target : Path) (bytes : Bytes) :
    Whole d target (· = bytes) (d.writeFileUpTo stop target bytes) :=
  whole_atomically fun _ hfree hlocate => leaves_overwriteUpTo hfree hlocate stop [] bytes

/-- What is copied is what is read of the source, unless the new file is taken for a source that is
not there. -/
theorem whole_copyFileUpTo (stop : Option Stop) (d : Disk) (source target : Path) :
    Whole d target (fun bytes => (d.entryAt? (d.placeOf source) = none →
        d.placeOf source ≠ d.placeOf (d.temporary target)) → d.read source = .ok bytes)
      (d.copyFileUpTo stop source target) := by
  refine whole_atomically fun q hfree hlocate => ?_
  obtain rfl := (locate_eq_ok.mp hlocate).2.2
  obtain ⟨bytes, f, ho, hread⟩ := leaves_overwriteFromUpTo hfree hlocate stop source []
  exact ⟨bytes, f, ho, fun hf hsource => hread hf fun he => hsource (he ▸ hfree) he⟩

end Disk

/-! ## In a run -/

namespace Act

/-- Writes a text into a file as a whole; filling may stop. -/
def writeTextUpTo (stop : Option Disk.Stop) (p : Path) (t : Text) : Act Unit := do
  let bytes ← encode t
  change (·.writeFileUpTo stop p bytes)

/-- Writes a document into a file as a whole; filling may stop. -/
def writeDocumentUpTo (stop : Option Disk.Stop) (p : Path) (v : Json) : Act Unit :=
  writeTextUpTo stop p v.write

/-- Copies a file as a whole; filling may stop. -/
def copyFileUpTo (stop : Option Disk.Stop) (source target : Path) : Act Unit :=
  change (·.copyFileUpTo stop source target)

theorem writeTextUpTo_none (p : Path) (t : Text) : writeTextUpTo none p t = writeText p t := rfl

theorem writeDocumentUpTo_none (p : Path) (v : Json) :
    writeDocumentUpTo none p v = writeDocument p v := rfl

theorem copyFileUpTo_none (source target : Path) :
    copyFileUpTo none source target = copyFile source target := rfl

/-- The act succeeds, the target has been given contents as a whole, and nothing else of the world
has changed; or the act fails, and nothing of the world has changed. -/
inductive Whole (w : World) (target : Path) (contents : Bytes → Prop) :
    Except Failure Unit × World → Prop where
  | done {d' : Disk} {bytes : Bytes} (holds : contents bytes) (reads : d'.read target = .ok bytes)
      (writes : w.disk.Writes d' (w.disk.placeOf target) bytes) :
      Whole w target contents (.ok (), { w with disk := d' })
  | refused (f : Failure) : Whole w target contents (.error f, w)

variable {w : World} {target : Path} {contents : Bytes → Prop}

theorem whole_change {f : Disk → Disk.Outcome} (h : Disk.Whole w.disk target contents (f w.disk)) :
    Whole w target contents ((change f).runIn w) := by
  have hrun : (change f).runIn w = (change fun _ => f w.disk).runIn w := rfl
  rw [hrun]
  generalize f w.disk = o at h
  cases h with
  | done holds reads writes => exact .done holds reads writes
  | refused e => exact .refused (.file e)

theorem whole_writeTextUpTo (stop : Option Disk.Stop) (w : World) (target : Path) (t : Text) :
    Whole w target (fun bytes => Utf8.encode? t = some bytes)
      ((writeTextUpTo stop target t).runIn w) := by
  cases hencode : Utf8.encode? t with
  | none =>
    have hthrow : writeTextUpTo stop target t = throw .unencodable := by
      rw [writeTextUpTo, encode, hencode]
      rfl
    rw [hthrow]
    exact .refused .unencodable
  | some bytes =>
    have hchange : writeTextUpTo stop target t = change (·.writeFileUpTo stop target bytes) := by
      rw [writeTextUpTo, encode, hencode]
      rfl
    rw [hchange]
    exact whole_change ((Disk.whole_writeFileUpTo stop w.disk target bytes).mono
      fun _ he => he ▸ rfl)

/-- **A file is written or copied as a whole, or nothing changes**, whatever stands on the disk and
wherever filling stops: bytes, a text in its encoding, a document, or what the source holds.  The
one thing asked of the new file's name is that a missing source does not have it.  Where nothing
stops, these are the acts of a run. -/
theorem files_whole (stop : Option Disk.Stop) (w : World) (target : Path) :
    (∀ bytes, Whole w target (· = bytes) ((change (·.writeFileUpTo stop target bytes)).runIn w)) ∧
    (∀ t, Whole w target (fun bytes => Utf8.encode? t = some bytes)
      ((writeTextUpTo stop target t).runIn w)) ∧
    (∀ v, Whole w target (fun bytes => Utf8.encode? v.write = some bytes)
      ((writeDocumentUpTo stop target v).runIn w)) ∧
    (∀ source, (w.disk.entryAt? (w.disk.placeOf source) = none →
        w.disk.placeOf source ≠ w.disk.placeOf (w.disk.temporary target)) →
      Whole w target (fun bytes => w.disk.read source = .ok bytes)
        ((copyFileUpTo stop source target).runIn w)) ∧
    (∀ bytes, w.disk.writeFileUpTo none target bytes = w.disk.writeFile target bytes) ∧
    writeTextUpTo none = writeText ∧ writeDocumentUpTo none = writeDocument ∧
    copyFileUpTo none = copyFile :=
  ⟨fun bytes => whole_change (Disk.whole_writeFileUpTo stop w.disk target bytes),
    fun t => whole_writeTextUpTo stop w target t,
    fun v => whole_writeTextUpTo stop w target v.write,
    fun source hsource =>
      whole_change ((Disk.whole_copyFileUpTo stop w.disk source target).mono fun _ h => h hsource),
    fun bytes => Disk.writeFileUpTo_none w.disk target bytes,
    funext₂ writeTextUpTo_none, funext₂ writeDocumentUpTo_none, funext₂ copyFileUpTo_none⟩

namespace Whole.Sample

def source : Path := ⟨.slash, ["w", "a"]⟩

def missing : Path := ⟨.slash, ["w", "m"]⟩

def copy : Path := ⟨.slash, ["w", "b"]⟩

/-- A directory with a file. -/
def world : World := { disk := ⟨[(["w"], .dir), (["w", "a"], .file [104, 105])], [], "t"⟩ }

/-- Filling stops after the first byte. -/
def stop : Disk.Stop := ⟨1, .refused .nameTooLong "n"⟩

/-- Half of a pair alone. -/
def half : Text := [Code.ofPoint 0xD800]

def document : Json := .obj [("a", .str "b")]

end Whole.Sample

open Whole.Sample in
theorem files_whole_sample :
    (Whole world copy (fun bytes => world.disk.read source = .ok bytes)
      ((copyFile source copy).runIn world) ∧
      ((copyFile source copy).runIn world).1 = .ok ()) ∧
    (Whole world copy (fun bytes => world.disk.read source = .ok bytes)
        ((copyFileUpTo (some stop) source copy).runIn world) ∧
      ((copyFileUpTo (some stop) source copy).runIn world).1 = .error (.file stop.fault)) ∧
    (Whole world copy (fun bytes => world.disk.read missing = .ok bytes)
      ((copyFile missing copy).runIn world) ∧
      ((copyFile missing copy).runIn world).1 = .error (.file (.refused .noEntry "/w/m"))) ∧
    (Whole world source (fun bytes => Utf8.encode? "no" = some bytes)
      ((writeText source "no").runIn world) ∧
      ((writeText source "no").runIn world).1 = .ok ()) ∧
    (Whole world source (fun bytes => Utf8.encode? "no" = some bytes)
        ((writeTextUpTo (some stop) source "no").runIn world) ∧
      ((writeTextUpTo (some stop) source "no").runIn world).1 = .error (.file stop.fault)) ∧
    (Whole world source (fun bytes => Utf8.encode? half = some bytes)
      ((writeText source half).runIn world) ∧
      ((writeText source half).runIn world).1 = .error .unencodable) ∧
    (Whole world copy (fun bytes => Utf8.encode? document.write = some bytes)
        ((writeDocument copy document).runIn world) ∧
      ((writeDocument copy document).runIn world).1 = .ok ()) ∧
    Whole world copy (fun bytes => Utf8.encode? document.write = some bytes)
        ((writeDocumentUpTo (some stop) copy document).runIn world) ∧
      ((writeDocumentUpTo (some stop) copy document).runIn world).1 =
        .error (.file stop.fault) := by
  have hcopy := fun stop => (files_whole stop world copy).2.2.2.1
  have htext := fun stop => (files_whole stop world source).2.1
  have hdocument := fun stop => (files_whole stop world copy).2.2.1
  have hnew :
      world.disk.placeOf missing ≠ world.disk.placeOf (world.disk.temporary copy) := by decide
  have hthere : (world.disk.entryAt? (world.disk.placeOf source)).isSome = true := by decide
  have hsource : world.disk.entryAt? (world.disk.placeOf source) = none →
      world.disk.placeOf source ≠ world.disk.placeOf (world.disk.temporary copy) := fun h => by
    rw [h] at hthere
    cases hthere
  exact ⟨⟨hcopy none source hsource, rfl⟩, ⟨hcopy (some stop) source hsource, rfl⟩,
    ⟨hcopy none missing fun _ => hnew, rfl⟩, ⟨htext none "no", rfl⟩, ⟨htext (some stop) "no", rfl⟩,
    ⟨htext none half, rfl⟩, ⟨hdocument none document, rfl⟩, hdocument (some stop) document, rfl⟩

end Act

end UberPackage
