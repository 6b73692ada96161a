/-
  A verification writes what differs, and nothing else.

  A plan reports a correction if and only if it makes a difference (`Plan.Reports`).  A verification
  writes a document only if the plan reports one for it (`Build.within_settle`), and ends for a
  corrected manifest only if there is one for the manifest (`Build.failsOnly_settle`).  So it does
  both for a real difference alone, and gives its plan only when the manifest is as it should be
  (`Build.verify_reports`).
-/
import UberPackage.Proofs.Build.Correction
import UberPackage.Proofs.Dependency.Report

namespace UberPackage.Build

open Act Disk

variable {s : Settings} {start looked v : World} {found : Discovery.Found}
  {manifest workspace : Json} {p : Plan}

/-! ## What follows a look -/

/-- After a look a verification ends as what follows the look does. -/
theorem verify_runIn (h : Does (inspect s) start (found, manifest, workspace, p) looked) :
    (verify s).runIn start = (settle s (found, manifest, workspace, p)).runIn looked := by
  rw [verify_eq]
  unfold Does at h
  show ExceptT.bindCont (settle s) (runIn (inspect s) start).1 (runIn (inspect s) start).2 = _
  rw [h]
  rfl

/-- What follows a look changes the documents that the plan corrects, and nothing else. -/
theorem within_settle (hs : s.IsResolved) :
    Within (Grows (fun q => q = s.workspacePath.parts ∧ p.workspace.changed = true ∨
      q = s.manifestPath.parts ∧ p.manifest.changed = true) fun _ => False)
      (settle s (found, manifest, workspace, p)) fun _ => True := by
  unfold settle
  refine (within_correctWorkspace hs fun hchanged => Or.inl ⟨rfl, hchanged⟩).bind fun _ _ => ?_
  refine (within_correctManifest hs fun hchanged => Or.inr ⟨rfl, hchanged⟩).bind fun _ _ => ?_
  exact (within_records _).bind fun _ _ => within_pure trivial

/-- Without a correction to the manifest a verification does not end for one. -/
theorem failsOnly_settle (h : p.manifest.changed = false) :
    FailsOnly (· ≠ .corrected) (settle s (found, manifest, workspace, p)) := by
  unfold settle
  refine (failsOnly_correctWorkspace _ _ _).bind fun _ => FailsOnly.bind ?_ fun _ => ?_
  · rw [correctManifest, h, if_neg Bool.false_ne_true]
    exact failsOnly_pure _
  · exact (failsOnly_records _).bind fun _ => failsOnly_pure _

/-- With a correction to the manifest a verification does not give its plan. -/
theorem unchanged_of_settle {x : Verified}
    (h : Does (settle s (found, manifest, workspace, p)) looked x v) :
    p.manifest.changed = false := by
  unfold settle at h
  obtain ⟨_, _, -, h⟩ := does_bind.mp h
  obtain ⟨_, _, hmanifest, -⟩ := does_bind.mp h
  exact (correctManifest_does hmanifest).1

/-! ## Differences that are written -/

/-- The document has been written because it differs, be the order of fields left aside; or there is
no difference at all, and the disk is as it was. -/
def Rewritten (d d' : Disk) (place : Place) (before after : Json) : Prop :=
  after = before ∧ d' = d ∨ ¬ Json.Alike after before ∧ Puts d d' place after.write

/-- What a verification does with a manifest and a workspace, the second one of each being what the
plan makes of the first one. -/
structure Rewrites (s : Settings) (start : World) (u u' w w' : Fields) : Prop where
  /-- It ends for a corrected manifest only if the manifest differs. -/
  corrected : ∀ v, Fails (verify s) start .corrected v → ¬ Json.Alike (.obj u') (.obj u)
  /-- It gives its plan only if there is nothing to change in the manifest. -/
  passed : ∀ x v, Does (verify s) start x v → u' = u
  /-- When it ends in one of these two ways, it has written the documents that differ. -/
  written : ∀ v, (∃ x, Does (verify s) start x v) ∨ Fails (verify s) start .corrected v →
    ∃ d, Rewritten start.disk d s.workspacePath.parts (.obj w) (.obj w') ∧
      Rewritten d v.disk s.manifestPath.parts (.obj u) (.obj u')
  /-- However it ends, it has changed no place but that of a document that differs. -/
  frame : ∀ q, ((verify s).runIn start).2.disk.entryAt? q ≠ start.disk.entryAt? q →
    q = s.workspacePath.parts ∧ ¬ Json.Alike (.obj w') (.obj w) ∨
      q = s.manifestPath.parts ∧ ¬ Json.Alike (.obj u') (.obj u)

theorem Corrected.rewritten {d d' : Disk} {place : Place} {changed : Bool}
    {outcome : Except Misfit Json} {before after : Json} (h : Corrected d d' place changed outcome)
    (houtcome : outcome = .ok after) (hchanged : changed = true ↔ ¬ Json.Alike after before)
    (heq : changed = false → after = before) : Rewritten d d' place before after := by
  obtain ⟨-, h⟩ := h
  cases hc : changed with
  | false =>
    rw [hc, if_neg Bool.false_ne_true] at h
    exact Or.inl ⟨heq hc, h⟩
  | true =>
    rw [hc, if_pos rfl] at h
    obtain ⟨c, hcorrected, hputs⟩ := h
    obtain rfl := Except.ok.inj (houtcome.symm.trans hcorrected)
    exact Or.inr ⟨hchanged.mp hc, hputs⟩

theorem rewrites_of_reports {u u' w w' : Fields} (hs : s.IsResolved) (htree : start.disk.IsFileTree)
    (hinspect : Does (inspect s) start (found, .obj u, .obj w, p) looked)
    (hmanifest : p.manifest.apply (.obj u) = .ok (.obj u'))
    (hworkspace : p.workspace.apply (.obj w) = .ok (.obj w')) (hreports : p.Reports u u' w w') :
    Rewrites s start u u' w w' := by
  have hrun := verify_runIn hinspect
  have hlooked := (inspect_does hinspect).1
  refine ⟨fun v h => ?_, fun x v h => ?_, fun v h => ?_, fun q hq => ?_⟩
  · refine hreports.manifest.mp (Bool.not_eq_false _ ▸ fun hunchanged => ?_)
    rw [Fails, hrun] at h
    exact failsOnly_settle hunchanged _ _ _ h rfl
  · rw [Does, hrun] at h
    exact hreports.manifest_eq (unchanged_of_settle h)
  · obtain ⟨d, hfirst, hsecond⟩ := corrected_of_verify hs htree hinspect h
    exact ⟨d, hfirst.rewritten hworkspace hreports.workspace fun h =>
      congrArg Json.obj (hreports.workspace_eq h),
      hsecond.rewritten hmanifest hreports.manifest fun h =>
        congrArg Json.obj (hreports.manifest_eq h)⟩
  · have hgrows := (@within_settle s found (.obj u) (.obj w) p hs looked (hlooked ▸ htree)).1
    rw [hrun] at hq
    rcases hgrows.entries q with he | hin | ⟨habove, -⟩
    · exact absurd (he.trans (by rw [hlooked])) hq
    · exact hin.imp (fun h => ⟨h.1, hreports.workspace.mp h.2⟩) fun h =>
        ⟨h.1, hreports.manifest.mp h.2⟩
    · exact habove.elim

end UberPackage.Build
