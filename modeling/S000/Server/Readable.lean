import S000.Server.WellFormed

/-!
# Server/Readable — versions that can be read

A version is readable when its row is there, it is not a delete marker, and the file its row names is
there.  What a read delivers is a function of the row and of that file, so that a version whose row and
file stay is read as before (`readVersion_congr`).
-/

namespace S000

open Strings Metadata Blob Machine

def readVersion (a : S3API) (w : World) (r : ObjectVersion) : Stream :=
  (stores.eval (readMaybeEncryptedObject a r none) w).1

structure Readable (w : World) (b k : Bytes) (r : ObjectVersion) : Prop where
  row : r ∈ w.metadata.versions b k
  object : r.deleteMarker = false
  file : (w.disk.files r.storagePath).isSome = true

variable {a : S3API} {w w' : World} {s : Step} {b k : Bytes} {o : Call} {r : ObjectVersion}

/-- **A read depends on the file of the row alone.** -/
theorem readVersion_congr (h : w'.disk.files r.storagePath = w.disk.files r.storagePath) :
    readVersion a w' r = readVersion a w r := by
  unfold readVersion readMaybeEncryptedObject
  split_ifs
  · simp only [readObject, eval_bind, eval_ask, step, h]
    cases opening .ok (w.disk.files r.storagePath) with
    | none => rfl
    | some f =>
      dsimp only
      split_ifs <;> rfl
  · rfl
  · simp only [eval_bind, eval_ask, step, h]
    cases opening .ok (w.disk.files r.storagePath) with
    | none => rfl
    | some f =>
      dsimp only
      split_ifs <;> rfl

theorem Readable.of_files (h : Readable w b k r) (hrow : r ∈ w'.metadata.versions b k)
    (hfile : w'.disk.files r.storagePath = w.disk.files r.storagePath) :
    Readable w' b k r ∧ readVersion a w' r = readVersion a w r :=
  ⟨⟨hrow, h.object, hfile ▸ h.file⟩, readVersion_congr hfile⟩

/-! ## Files that no call touches -/

/-- The calls that put an object file at a path or take it away. -/
def Call.Touches (path : Bytes) : Call → Prop
  | rename _ _ p | promote _ _ p | remove p => p = path
  | _ => False

variable {path : Bytes}

theorem FileChange.eq_of_not_touches {v : o.Val} {x x' : Option Bytes}
    (h : FileChange path o v x x') (ho : ¬ o.Touches path) : x' = x := by
  cases h with
  | same => rfl
  | rename | promote | remove => exact absurd rfl ho

/-- **A file that no event touches stays as it is.** -/
theorem files_exec_of_untouched {α : Type} {p : Act α} {faults : List Fault}
    (h : ∀ e ∈ (stores.exec p faults ⟨w, []⟩).2.events, ¬ e.op.Touches path) :
    (stores.exec p faults ⟨w, []⟩).2.world.disk.files path = w.disk.files path := by
  obtain ⟨es, hes⟩ := exec_events p faults ⟨w, []⟩
  have hevents : (stores.exec p faults ⟨w, []⟩).2.events = es := by rw [hes, List.nil_append]
  have hworld : (stores.exec p faults ⟨w, []⟩).2.world = stores.replay w es := by rw [hes]
  rw [hworld]
  refine replay_induct (p := fun w' => w'.disk.files path = w.disk.files path)
    stores (fun e he w' hw' => ?_) rfl
  exact ((fileChange_step w' e.fault e.op path).eq_of_not_touches (h e (hevents ▸ he))).trans hw'

theorem files_after_of_untouched (h : ∀ e ∈ (respond a w s).2.events, ¬ e.op.Touches path) :
    (after a w s).disk.files path = w.disk.files path :=
  files_exec_of_untouched h

end S000
