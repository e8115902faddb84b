import S000.Metadata.Consistency

/-!
# Metadata/Rollback — what a failed operation leaves behind

An operation that is refused has not touched the maps (`eq_of_mutate_error`), a transaction whose
function fails has worked on a copy, and a repair that counts nothing has changed nothing
(`repairState_eq_self`).  What remains is the operation that changes the maps and then cannot save
them: the change stays (`call_cases`).
-/

namespace S000.Metadata

/-! ## Refusals -/

section Refused

variable {α S : Type} {e : Error} {x : Except Error α} {st : S}

/-- The result and the state of an operation that changes nothing when it is refused. -/
def Refuses (st : S) (r : Except Error α × S) : Prop := ∀ e, r.1 = .error e → r.2 = st

theorem refuses_self : Refuses st (x, st) := fun _ _ => rfl

theorem refuses_ok {a : α} {st' : S} : Refuses st (.ok a, st') := nofun

theorem refuses_ite {c : Prop} [Decidable c] {r r' : Except Error α × S} (h : c → Refuses st r)
    (h' : ¬ c → Refuses st r') : Refuses st (if c then r else r') := by
  split_ifs with hc
  · exact h hc
  · exact h' hc

end Refused

namespace StoreState

variable {st : StoreState}

theorem lift_refuses {α : Type} {f : MemoryState → Except Error α × MemoryState}
    (h : Refuses st.toMemoryState (f st.toMemoryState)) : Refuses st (st.lift f) := by
  intro e he
  unfold lift
  rw [h e he]

/-- **A refused operation has not touched the maps.** -/
theorem eq_of_mutate_error {op : StoreOp} : Refuses st (st.mutate op) := by
  cases op with
  | createBucket b =>
    exact lift_refuses (refuses_ite (fun _ => refuses_self) fun _ =>
      refuses_ite (fun _ => refuses_self) fun _ => refuses_ok)
  | updateBucketVersioning bucket status =>
    refine lift_refuses ?_
    unfold MemoryState.updateBucketVersioning
    split
    · exact refuses_self
    · exact refuses_ok
  | updateObjectMetadata bucket key versionID metadata =>
    refine lift_refuses ?_
    unfold MemoryState.updateObjectMetadata
    dsimp only
    split
    · exact refuses_self
    · exact refuses_ok
  | deleteObjectVersion bucket key versionID =>
    refine lift_refuses ?_
    unfold MemoryState.deleteObjectVersion
    dsimp only
    split
    · exact refuses_self
    · exact refuses_ite (fun _ => refuses_ok) fun _ => refuses_ok
  | deleteAllObjectVersions | createMultipartUpload =>
    exact lift_refuses (refuses_ite (fun _ => refuses_self) fun _ => refuses_ok)
  | deleteMultipartUpload | upsertMultipartPart =>
    exact lift_refuses (refuses_ite (fun _ => refuses_ok) fun _ => refuses_self)
  | deleteBucket | putConfig | deleteConfig | deleteObjectTagging =>
    exact refuses_ite (fun _ => refuses_ok) fun _ => refuses_self
  | runInTx fn =>
    unfold mutate runInTx
    dsimp only
    split
    · exact refuses_self
    · exact refuses_ok
  | _ => exact refuses_ok

/-- An operation that does not save although it was not refused is a repair that counts nothing. -/
theorem mutate_of_not_saves {op : StoreOp} {v : op.Val} (hv : (st.mutate op).1 = .ok v)
    (h : op.saves v = false) : (st.mutate op).2 = st := by
  unfold StoreOp.saves at h
  split at h
  next repaired =>
    rw [mutate_repairConsistency st] at hv ⊢
    dsimp only at hv ⊢
    have hzero : repaired = 0 := by simpa using h
    refine repairState_eq_self ?_
    rw [Except.ok.inj hv, hzero]
  cases h

end StoreState

/-! ## Failed operations -/

namespace MemoryBackedStore

variable (s : MemoryBackedStore) (op : StoreOp)

/-- The three ways an operation ends: refused, saved, and changed without a save. -/
theorem call_cases (saved : Bool) :
    (∃ e, (s.st.mutate op).1 = .error e ∧ s.call op saved = (.error e, s)) ∨
    (∃ v, (s.st.mutate op).1 = .ok v ∧ op.saves v = false ∧ s.call op saved = (.ok v, s)) ∨
    (∃ v, (s.st.mutate op).1 = .ok v ∧ op.saves v = true ∧
      s.call op saved = if saved then (.ok v, ⟨(s.st.mutate op).2, (s.st.mutate op).2⟩)
        else (.error .failed, { s with st := (s.st.mutate op).2 })) := by
  cases hr : (s.st.mutate op).1 with
  | error e =>
    have hst := StoreState.eq_of_mutate_error e hr
    refine .inl ⟨e, rfl, ?_⟩
    rw [call, ← Prod.mk.eta (p := s.st.mutate op), hr, hst]
  | ok v =>
    have hcall : s.call op saved = if op.saves v then
        (if saved then (.ok v, ⟨(s.st.mutate op).2, (s.st.mutate op).2⟩)
          else (.error .failed, { s with st := (s.st.mutate op).2 }))
        else (.ok v, { s with st := (s.st.mutate op).2 }) := by
      rw [call, ← Prod.mk.eta (p := s.st.mutate op), hr]
    cases hsaves : op.saves v with
    | false =>
      rw [hsaves, StoreState.mutate_of_not_saves hr hsaves] at hcall
      exact .inr (.inl ⟨v, rfl, hsaves, hcall⟩)
    | true =>
      rw [hsaves] at hcall
      exact .inr (.inr ⟨v, rfl, hsaves, hcall⟩)

end MemoryBackedStore

end S000.Metadata
