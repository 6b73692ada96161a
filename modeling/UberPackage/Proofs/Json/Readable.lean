/-
  Documents that can be written and read again.

  A document is readable (`Json.Readable`) when its integers are short enough, its floating-point
  numbers proper and the names of the fields of each object distinct.  Whatever has been read is
  readable (`readable_of_read`): that holds of what a task has read so far, and each step keeps it.
-/
import Mathlib.Data.List.TakeWhile
import UberPackage.Proofs.Except
import UberPackage.Proofs.Json.Number
import UberPackage.Proofs.Json.TextKeys

namespace UberPackage.Json

/-- The document can be written and read again. -/
inductive Readable : Json → Prop where
  | null : Readable null
  | bool (b : Bool) : Readable (bool b)
  | int {i : Int} (h : IsShort i) : Readable (int i)
  | float {x : Binary64} (h : x.Proper) : Readable (float x)
  | str (t : Text) : Readable (str t)
  | arr {vs : List Json} (h : ∀ v ∈ vs, Readable v) : Readable (arr vs)
  | obj {fs : Fields} (hk : fs.keys.Nodup) (h : ∀ f ∈ fs, Readable f.2) : Readable (obj fs)

/-! ## Numbers -/

theorem digitsValue_lt {ds : Text} (h : ∀ d ∈ ds, isDigit d = true) :
    digitsValue ds < 10 ^ ds.length := by
  have hfold : ∀ (es : Text) (n : Nat), (∀ d ∈ es, isDigit d = true) →
      es.foldl (fun n d => 10 * n + (d.point - 48)) n < (n + 1) * 10 ^ es.length := by
    intro es
    induction es with
    | nil => exact fun n _ => by simp
    | cons d es ih =>
      intro n hd
      have hpoint : d.point - 48 < 10 := by
        have hdigit := hd d List.mem_cons_self
        cases d with
        | half i => exact absurd hdigit (by simp [isDigit])
        | char c =>
          rw [isDigit, Char.isDigit_iff_toNat] at hdigit
          have hnine : c.toNat ≤ 57 := hdigit.2
          rw [Code.point]
          omega
      have hrest := ih (10 * n + (d.point - 48)) fun e he => hd e (List.mem_cons_of_mem d he)
      rw [List.foldl_cons, List.length_cons, Nat.pow_succ]
      calc _ < (10 * n + (d.point - 48) + 1) * 10 ^ es.length := hrest
        _ ≤ (10 * (n + 1)) * 10 ^ es.length := Nat.mul_le_mul_right _ (by omega)
        _ = (n + 1) * (10 ^ es.length * 10) := by ring
  have := hfold ds 0 h
  rwa [Nat.zero_add, Nat.one_mul] at this

theorem isDigit_wholeDigits (t : Text) : ∀ d ∈ wholeDigits t, isDigit d = true := by
  unfold wholeDigits
  split
  · intro d hd
    obtain rfl := List.mem_singleton.mp hd
    rfl
  · exact fun d hd => List.mem_takeWhile_imp hd

/-- A number that has been read is readable. -/
theorem readable_of_readNumber? {t rest : Text} {v : Json}
    (h : readNumber? t = some (.ok (v, rest))) : Readable v := by
  unfold readNumber? at h
  dsimp only at h
  split at h
  · cases h
  · rcases ite_eq_iff.mp (Option.some.inj h) with ⟨-, h⟩ | ⟨-, h⟩
    · rcases ite_eq_iff.mp h with ⟨-, h⟩ | ⟨hlong, h⟩
      · cases h
      · have hlt := digitsValue_lt (isDigit_wholeDigits (takeSign t).2)
        have hpow := Nat.pow_le_pow_right (show 0 < 10 by decide) (Nat.le_of_not_gt hlong)
        obtain ⟨rfl, -⟩ := Prod.mk.inj (Except.ok.inj h)
        refine .int ?_
        rw [IsShort]
        split <;> omega
    · obtain ⟨rfl, -⟩ := Prod.mk.inj (Except.ok.inj h)
      exact .float (Binary64.proper_ofDecimal _ _ _)

theorem readable_of_readScalar {t rest : Text} {v : Json} (h : readScalar t = .ok (v, rest)) :
    Readable v := by
  unfold readScalar at h
  split at h
  · next w u hfind =>
    obtain ⟨rfl, -⟩ := Prod.mk.inj (Except.ok.inj h)
    have hmem := List.mem_of_find?_eq_some hfind
    simp only [literals, List.mem_cons, Prod.mk.injEq, List.not_mem_nil, or_false] at hmem
    rcases hmem with ⟨-, rfl⟩ | ⟨-, rfl⟩ | ⟨-, rfl⟩ | ⟨-, rfl⟩ | ⟨-, rfl⟩ | ⟨-, rfl⟩
    · exact .null
    · exact .bool true
    · exact .bool false
    · exact .float trivial
    · exact .float trivial
    · exact .float trivial
  · split at h
    · next r hr =>
      rw [h] at hr
      exact readable_of_readNumber? hr
    · cases h

/-! ## Objects -/

theorem Readable.set {fs : Fields} (h : Readable (Json.obj fs)) (key : Text) {v : Json}
    (hv : Readable v) : Readable (Json.obj (fs.set key v)) := by
  cases h with
  | obj hk h =>
    refine .obj (Fields.nodup_keys_set hk) fun f hf => ?_
    rcases Fields.mem_set hf with rfl | hf
    · exact hv
    · exact h f hf

/-! ## Tasks -/

/-- What a reader has read before is readable. -/
def Task.IsReadable : Task → Prop
  | .value => True
  | .items read => ∀ v ∈ read, Readable v
  | .fields read => Readable (obj read)

/-- Whatever a task reads is readable. -/
theorem readable_of_readTask {n : Nat} {task : Task} {t rest : Text} {v : Json}
    (ht : task.IsReadable) (h : readTask n task t = .ok (v, rest)) : Readable v := by
  have hvalue : Task.IsReadable .value := trivial
  have hobj : Readable (Json.obj []) := .obj List.nodup_nil fun f hf => absurd hf List.not_mem_nil
  induction n generalizing task t rest v with
  | zero =>
    rw [readTask] at h
    cases h
  | succ n ih =>
    cases task with
    | value =>
      unfold readTask at h
      split at h
      · rw [except_bind_eq_ok] at h
        obtain ⟨⟨s, rest'⟩, -, h⟩ := h
        cases h
        exact .str s
      · split at h
        · cases h
          exact hobj
        · exact ih (show Task.IsReadable (.fields []) from hobj) h
      · split at h
        · cases h
          exact .arr fun v hv => absurd hv List.not_mem_nil
        · exact ih (show Task.IsReadable (.items []) from fun v hv => absurd hv List.not_mem_nil) h
      · exact readable_of_readScalar h
    | items read =>
      unfold readTask at h
      rw [except_bind_eq_ok] at h
      obtain ⟨⟨u, rest'⟩, hu, h⟩ := h
      have hread : ∀ w ∈ u :: read, Readable w := by
        rintro w (_ | ⟨_, hw⟩)
        · exact ih hvalue hu
        · exact ht w hw
      dsimp only at h
      split at h
      · cases h
        exact .arr fun w hw => hread w (List.mem_reverse.mp hw)
      · exact ih (show Task.IsReadable (.items (u :: read)) from hread) h
      · cases h
    | fields read =>
      unfold readTask at h
      split at h
      · rw [except_bind_eq_ok] at h
        obtain ⟨⟨key, rest'⟩, -, h⟩ := h
        dsimp only at h
        split at h
        · rw [except_bind_eq_ok] at h
          obtain ⟨⟨u, rest''⟩, hu, h⟩ := h
          have hset := Readable.set ht key (ih hvalue hu)
          dsimp only at h
          split at h
          · cases h
            exact hset
          · exact ih (show Task.IsReadable (.fields (read.set key u)) from hset) h
          · cases h
        · cases h
      · cases h

/-- **Whatever has been read is readable.** -/
theorem readable_of_read {t : Text} {v : Json} (h : read t = .ok v) : Readable v := by
  unfold read at h
  split at h
  · next u hu =>
    obtain rfl := Except.ok.inj h
    unfold readWhole at hu
    split at hu
    · cases hu
    · dsimp only at hu
      rw [except_bind_eq_ok] at hu
      obtain ⟨⟨v, rest⟩, hv, hu⟩ := hu
      dsimp only at hu
      split at hu
      · obtain rfl := Except.ok.inj hu
        exact readable_of_readTask (show Task.IsReadable .value from trivial) hv
      · cases hu
  · cases h

end UberPackage.Json
