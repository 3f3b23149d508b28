import WikiMount.Proofs.Storage.RepositoryWrites

/-!
# Calls behind a failure rule

A caller of the repository asks queries and performs writes. A failure rule stands between the caller and
the store: it lets every query through, and every write either goes through as well or is refused before
the store has seen it. So a caller who may still write deals with the bare store. With a limit this goes on
until as many writes have succeeded as the limit allows; a write that the store itself refuses does not
count towards it.
-/

namespace WikiMount

/-- What a repository can be asked. -/
inductive Query
  | hasPage (page : Page)
  | hasSpace (space : Space)
  | document (page : Page)
  | pagesIn (space : Space)
  | childrenOf (page : Page)
  | pagesBeginning (space : Space) (beginning : String)
  | spacesIn (space : Space)
  | topLevelSpaces
  | allSpaces
  | files (page : Page)
  | pagesWithFiles (space : Space)
  | orphans
  | content (attachment : Attachment)
deriving DecidableEq

/-- What a query is answered with. -/
abbrev Query.Answer : Query → Type
  | .hasPage _ | .hasSpace _ => Bool
  | .document _ => Except StorageError Document
  | .pagesIn _ | .childrenOf _ | .pagesBeginning _ _ | .pagesWithFiles _ | .orphans =>
    Except StorageError (List Page)
  | .spacesIn _ | .topLevelSpaces | .files _ => Except StorageError (List String)
  | .allSpaces => Except StorageError (List Space)
  | .content _ => Except StorageError Bytes

/-- A query or a write. -/
inductive Call
  | ask (query : Query)
  | write (write : Write)
deriving DecidableEq

abbrev Call.Answer : Call → Type
  | .ask query => query.Answer
  | .write _ => Except StorageError Unit

namespace Store

def ask (s : Store) : (query : Query) → query.Answer
  | .hasPage page => s.hasPage page
  | .hasSpace space => s.hasSpace space
  | .document page => s.document page
  | .pagesIn space => .ok (s.pagesIn space)
  | .childrenOf page => .ok (s.childrenOf page)
  | .pagesBeginning space beginning => .ok (s.pagesBeginning space beginning)
  | .spacesIn space => .ok (s.spacesIn space)
  | .topLevelSpaces => .ok s.topLevelSpaces
  | .allSpaces => .ok s.allSpaces
  | .files page => .ok (s.filesOf page).keys
  | .pagesWithFiles space => .ok (s.pagesWithFiles space)
  | .orphans => .ok s.orphans
  | .content a => s.content a

/-- What the bare store answers to a call, and the store afterwards. -/
def call (s : Store) : (call : Call) → call.Answer × Store
  | .ask query => (s.ask query, s)
  | .write w => s.write w

def after (s : Store) (calls : List Call) : Store := calls.foldl (fun s call => (s.call call).2) s

end Store

namespace Repository

def ask (r : Repository) : (query : Query) → query.Answer
  | .hasPage page => r.hasPage page
  | .hasSpace space => r.hasSpace space
  | .document page => r.document page
  | .pagesIn space => r.pagesIn space
  | .childrenOf page => r.childrenOf page
  | .pagesBeginning space beginning => r.pagesBeginning space beginning
  | .spacesIn space => r.spacesIn space
  | .topLevelSpaces => r.topLevelSpaces
  | .allSpaces => r.allSpaces
  | .files page => r.files page
  | .pagesWithFiles space => r.pagesWithFiles space
  | .orphans => r.orphans
  | .content a => r.content a

/-- What the repository answers to a call, and the repository afterwards. -/
def call (r : Repository) : (call : Call) → call.Answer × Repository
  | .ask query => (r.ask query, r)
  | .write w => r.write w

def after (r : Repository) (calls : List Call) : Repository :=
  calls.foldl (fun r call => (r.call call).2) r

/-- How many writes among some calls succeed. -/
def successes (r : Repository) : List Call → Nat
  | [] => 0
  | .ask _ :: rest => r.successes rest
  | .write w :: rest => (if (r.write w).1.isOk then 1 else 0) + (r.write w).2.successes rest

variable {r : Repository} {w : Write} {calls : List Call} {n : Nat}

@[simp] theorem after_nil (r : Repository) : r.after [] = r := rfl

@[simp] theorem after_cons (r : Repository) (call : Call) (calls : List Call) :
    r.after (call :: calls) = (r.call call).2.after calls := rfl

theorem after_append (r : Repository) (before since : List Call) :
    r.after (before ++ since) = (r.after before).after since := by
  rw [after, List.foldl_append, after, after]

/-! ## Through the rule -/

/-- Queries that work are answered by the store. -/
theorem ask_eq (hbroken : r.broken = []) (query : Query) : r.ask query = r.store.ask query := by
  cases query <;> first | rfl | exact asked_of_working hbroken

/-- Neither the rule nor what works changes by a call. -/
theorem call_fixed (r : Repository) (call : Call) :
    (r.call call).2.broken = r.broken ∧ (r.call call).2.failure = r.failure := by
  cases call with
  | ask query => exact ⟨rfl, rfl⟩
  | write w => exact r.write_fixed w

theorem after_fixed (r : Repository) (calls : List Call) :
    (r.after calls).broken = r.broken ∧ (r.after calls).failure = r.failure := by
  induction calls generalizing r with
  | nil => exact ⟨rfl, rfl⟩
  | cons call calls ih =>
    obtain ⟨hbroken, hfailure⟩ := r.call_fixed call
    rw [after_cons, ← hbroken, ← hfailure]
    exact ih (r.call call).2

theorem writes_after (r : Repository) (calls : List Call) :
    (r.after calls).writes = r.writes + r.successes calls := by
  induction calls generalizing r with
  | nil => rfl
  | cons call calls ih =>
    rw [after_cons, ih]
    cases call with
    | ask query => rfl
    | write w =>
      change (r.write w).2.writes + (r.write w).2.successes calls = _
      rw [writes_write, successes, Nat.add_assoc]

/-! ## Limits -/

/-- Below the limit a call is answered by the bare store. -/
theorem call_of_lt (hbroken : r.broken = []) (hrule : r.failure = .afterWrites n) (h : r.writes < n)
    (call : Call) : (r.call call).1 = (r.store.call call).1 ∧
      (r.call call).2.store = (r.store.call call).2 := by
  cases call with
  | ask query => exact ⟨ask_eq hbroken query, rfl⟩
  | write w =>
    have hpassed : r.failure.stops r.writes w.page = false := by
      simpa [hrule, FailureRule.stops] using h
    have hwrite := write_of_passed hbroken hpassed
    exact ⟨congrArg Prod.fst hwrite, congrArg (·.2.store) hwrite⟩

theorem write_of_le (hbroken : r.broken = []) (hrule : r.failure = .afterWrites n) (h : n ≤ r.writes)
    (w : Write) :
    r.write w = (.error (.backend ("injected write failure on " ++ w.page.text)), r) :=
  write_of_stopped hbroken (by simpa [hrule, FailureRule.stops] using h)

theorem writes_call_le (hbroken : r.broken = []) (hrule : r.failure = .afterWrites n)
    (h : r.writes ≤ n) (call : Call) : (r.call call).2.writes ≤ n := by
  cases call with
  | ask query => exact h
  | write w =>
    change (r.write w).2.writes ≤ n
    rcases Nat.lt_or_ge r.writes n with hlt | hge
    · rw [writes_write]
      split <;> omega
    · rw [write_of_le hbroken hrule hge]
      exact h

theorem writes_after_le (hbroken : r.broken = []) (hrule : r.failure = .afterWrites n)
    (h : r.writes ≤ n) (calls : List Call) : (r.after calls).writes ≤ n := by
  induction calls generalizing r with
  | nil => exact h
  | cons call calls ih =>
    obtain ⟨hbroken', hfailure⟩ := r.call_fixed call
    exact ih (hbroken'.trans hbroken) (hfailure.trans hrule) (writes_call_le hbroken hrule h call)

/-- Until the limit is reached the store becomes what it would become without one. -/
theorem store_after_of_lt (hbroken : r.broken = []) (hrule : r.failure = .afterWrites n)
    (h : r.writes + r.successes calls < n) : (r.after calls).store = r.store.after calls := by
  induction calls generalizing r with
  | nil => rfl
  | cons call calls ih =>
    obtain ⟨hbroken', hfailure⟩ := r.call_fixed call
    have hcount : (r.call call).2.writes + (r.call call).2.successes calls =
        r.writes + r.successes (call :: calls) := by
      rw [← writes_after, ← writes_after, after_cons]
    have hlt : r.writes < n := by omega
    rw [after_cons, ih (hbroken'.trans hbroken) (hfailure.trans hrule) (by omega),
      (call_of_lt hbroken hrule hlt call).2]
    rfl

/-- Behind a limit of `n` writes that has just been set, calls go to the bare store until `n` writes have
succeeded, and after that every write is refused and changes nothing. Queries are answered by the store as
it is. The writes that succeed are counted, and there are never more than `n`. -/
theorem limited_after (r : Repository) (hbroken : r.broken = []) (n : Nat) (calls : List Call) :
    let limited := r.setFailure (.afterWrites n)
    let later := limited.after calls
    let done := limited.successes calls
    (done < n → later.store = r.store.after calls ∧
      ∀ call, (later.call call).1 = ((r.store.after calls).call call).1 ∧
        (later.call call).2.store = ((r.store.after calls).call call).2) ∧
    (n ≤ done → ∀ w,
      later.write w = (.error (.backend ("injected write failure on " ++ w.page.text)), later)) ∧
    (∀ query, later.ask query = later.store.ask query) ∧
    later.writes = done ∧ done ≤ n := by
  intro limited later done
  obtain ⟨hworking, hrule⟩ : later.broken = [] ∧ later.failure = .afterWrites n :=
    hbroken ▸ limited.after_fixed calls
  have hzero : limited.writes = 0 := rfl
  have hcount : later.writes = done := by
    rw [limited.writes_after, hzero, Nat.zero_add]
  have hbound : later.writes ≤ n := writes_after_le (r := limited) hbroken rfl (Nat.zero_le n) calls
  refine ⟨fun hlt => ?_, fun hle => write_of_le hworking hrule (by omega), ask_eq hworking, hcount,
    by omega⟩
  have hstore : later.store = r.store.after calls :=
    store_after_of_lt (r := limited) hbroken rfl (by omega)
  refine ⟨hstore, fun call => ?_⟩
  rw [← hstore]
  exact call_of_lt hworking hrule (by omega) call

/-- Of five writes the first is the only one that succeeds before the fourth, and the fifth is stopped by a
limit of two. -/
theorem limited_after_two :
    let a := Page.inSpace "A" (.topLevel "Main")
    let b := Page.inSpace "B" (.topLevel "Main")
    let r : Repository := ⟨.ofPages [a], .onPages [a], 7, []⟩
    let first := [.write (.attach ⟨a, "a.txt"⟩ ⟨#[1]⟩), .write (.delete b), .ask .orphans,
      .write (.move ⟨a, "a.txt"⟩ ⟨.relative "C", "c.txt"⟩)]
    let second := first ++ [.write (.rename a b)]
    r.broken = [] ∧ (r.setFailure (.afterWrites 2)).successes first = 1 ∧
      ((r.setFailure (.afterWrites 2)).after first).store = r.store.after first ∧
      (r.setFailure (.afterWrites 2)).successes second = 2 ∧
      (((r.setFailure (.afterWrites 2)).after second).write (.delete b)).1 =
        .error (.backend "injected write failure on Main.B") ∧
      ((r.setFailure (.afterWrites 2)).after second).ask (.hasPage b) = true := by
  intro a b r first second
  have hone : (r.setFailure (.afterWrites 2)).successes first = 1 := by decide +kernel
  have htwo : (r.setFailure (.afterWrites 2)).successes second = 2 := by decide +kernel
  obtain ⟨hbelow, _⟩ := limited_after r rfl 2 first
  obtain ⟨_, hlimit, hask, _⟩ := limited_after r rfl 2 second
  have htext : "injected write failure on Main.B" = "injected write failure on " ++ b.text := by decide
  refine ⟨rfl, hone, (hbelow (by rw [hone]; decide)).1, htwo, ?_, ?_⟩
  · rw [hlimit (Nat.le_of_eq htwo.symm) (.delete b), htext]
    rfl
  · rw [hask]
    decide +kernel

end Repository

end WikiMount
