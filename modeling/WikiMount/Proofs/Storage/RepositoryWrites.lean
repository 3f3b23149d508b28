import WikiMount.Proofs.Storage.Reachable
import WikiMount.Storage.Repository

/-!
# Calls of the repository

A query that is answered is answered by the store. A write is refused, and then the repository is what it
was, or it is performed by the store and counted if it succeeds. Neither changes which methods work and
which writes are made to fail.
-/

namespace WikiMount.Repository

/-- What the store makes of a write, counted if it succeeds. -/
def performed (r : Repository) (w : Write) : Except StorageError Unit × Repository :=
  ((r.store.write w).1,
    { r with
      store := (r.store.write w).2
      writes := r.writes + if (r.store.write w).1.isOk then 1 else 0 })

variable {r r' : Repository} {w : Write}

/-! ## Queries -/

/-- A query that works is answered by the store. -/
theorem asked_of_working {α : Type} {m : Method} {answer : Except StorageError α}
    (hbroken : r.broken = []) : r.asked m answer = answer := by
  simp [asked, hbroken]

theorem asked_eq_ok {α : Type} {m : Method} {answer : Except StorageError α} {a : α}
    (h : r.asked m answer = .ok a) : answer = .ok a := by
  simp only [asked] at h
  split at h
  · cases h
  · exact h

/-- Where a query is answered, the answer is what the store says. -/
theorem eq_of_asked {α : Type} {m : Method} {a b : α} (h : r.asked m (.ok a) = .ok b) : a = b :=
  Except.ok.inj (asked_eq_ok h)

/-! ## Writes -/

theorem write_eq (r : Repository) (w : Write) : r.write w =
    if w.method ∈ r.broken then (.error (.backend ("broken " ++ w.method.name)), r)
    else if r.failure.stops r.writes w.page then
      (.error (.backend ("injected write failure on " ++ w.page.text)), r)
    else r.performed w := by
  simp only [write, performed]
  rcases r.store.write w with ⟨answer, store⟩
  cases answer <;> rfl

/-- A write that the rule stops does not get to the store. -/
theorem write_of_stopped (hbroken : r.broken = []) (h : r.failure.stops r.writes w.page = true) :
    r.write w = (.error (.backend ("injected write failure on " ++ w.page.text)), r) := by
  rw [write_eq, hbroken, if_neg List.not_mem_nil, if_pos h]

theorem write_of_passed (hbroken : r.broken = []) (h : r.failure.stops r.writes w.page = false) :
    r.write w = r.performed w := by
  rw [write_eq, hbroken, if_neg List.not_mem_nil, h, if_neg Bool.false_ne_true]

/-- A write is refused and changes nothing, or it is performed. -/
theorem write_cases (r : Repository) (w : Write) :
    (∃ reason, r.write w = (.error (.backend reason), r)) ∨ r.write w = r.performed w := by
  rw [write_eq]
  split
  · exact .inl ⟨_, rfl⟩
  · split
    · exact .inl ⟨_, rfl⟩
    · exact .inr rfl

/-- A write that the repository refuses keeps the store, any other one is performed by it. -/
theorem write_invariant (I : Store → Prop) (h : I r.store) (hw : I (r.store.write w).2) :
    I (r.write w).2.store := by
  obtain ⟨_, he⟩ | he := r.write_cases w
  · exact he ▸ h
  · exact he ▸ hw

theorem reachable_write (hs : r.store.Reachable) (w : Write) : (r.write w).2.store.Reachable :=
  write_invariant Store.Reachable hs (hs.write w)

theorem coherent_write (hs : r.store.Coherent) (w : Write) : (r.write w).2.store.Coherent :=
  write_invariant Store.Coherent hs (hs.write w)

theorem write_fixed (r : Repository) (w : Write) :
    (r.write w).2.broken = r.broken ∧ (r.write w).2.failure = r.failure := by
  obtain ⟨_, he⟩ | he := r.write_cases w <;> rw [he] <;> exact ⟨rfl, rfl⟩

/-- A write is counted exactly if it succeeds. -/
theorem writes_write (r : Repository) (w : Write) :
    (r.write w).2.writes = r.writes + if (r.write w).1.isOk then 1 else 0 := by
  obtain ⟨_, he⟩ | he := r.write_cases w <;> rw [he] <;> rfl

theorem write_eq_ok (h : r.write w = (.ok (), r')) : r.store.write w = (.ok (), r'.store) := by
  obtain ⟨_, he⟩ | he := r.write_cases w
  · cases he.symm.trans h
  · obtain ⟨hanswer, rfl⟩ := Prod.mk.inj (he.symm.trans h)
    exact Prod.ext hanswer rfl

/-- A write that succeeds replaces the store and is counted. -/
theorem counted_of_write (h : r.write w = (.ok (), r')) :
    r' = { r with store := r'.store, writes := r.writes + 1 } := by
  obtain ⟨_, he⟩ | he := r.write_cases w
  · cases he.symm.trans h
  · obtain ⟨hanswer, rfl⟩ := Prod.mk.inj (he.symm.trans h)
    rw [hanswer]
    rfl

end WikiMount.Repository
