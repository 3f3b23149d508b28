import Mathlib.Data.Finset.Card
import Mathlib.Data.List.Nodup
import WikiMount.Proofs.Session.Storages

/-!
# The sessions that are kept

Whatever becomes of sessions is a sequence of acts, and which storage a user gets next is a matter of the
acts since the last request of the same user: it is the same storage as long as the session has not been
idle for too long and there have been fewer other users than there is room for. A purge does not count,
because it drops a newer session only when all older ones have expired as well; looking at a session
without using it does not count either. In every other case the storage is one that nobody has had.
-/

namespace WikiMount.Sessions

/-- What becomes of sessions: someone asks for the storage of a user, with the session counting as used or
without, expired sessions are dropped, time passes, and the files of a storage are changed. -/
inductive Act
  | request (user : String)
  | peek (user : String)
  | purge
  | advance (seconds nanoseconds : Nat)
  | write (id : Nat) (files : Scratch)
deriving DecidableEq

/-- The user whose session an act uses. -/
def Act.requester? : Act → Option String
  | .request user => some user
  | _ => none

/-- How far an act moves the clock. -/
def Act.milliseconds : Act → Nat
  | .advance seconds nanoseconds => seconds * 1000 + nanoseconds / 1000000
  | _ => 0

def act (s : Sessions) : Act → Sessions
  | .request user => (s.getOrCreate user).2
  | .peek _ => s
  | .purge => s.purge.2
  | .advance seconds nanoseconds => s.advance seconds nanoseconds
  | .write id files => s.setStorage id files

/-- The storage that an act answers with, and the user whose storage it is. -/
def answer? (s : Sessions) : Act → Option (String × Nat)
  | .request user => some (user, (s.getOrCreate user).1)
  | .peek user => (s.get? user).map fun id => (user, id)
  | _ => none

def after (s : Sessions) (acts : List Act) : Sessions := acts.foldl act s

/-- The storages that acts answer with. -/
def answers (s : Sessions) : List Act → List (String × Nat)
  | [] => []
  | a :: acts => (s.answer? a).toList ++ (s.act a).answers acts

/-- How far acts move the clock. -/
def elapsed : List Act → Nat
  | [] => 0
  | a :: acts => a.milliseconds + elapsed acts

/-- The users other than the given one whose sessions acts use. -/
def others (user : String) (acts : List Act) : Finset String :=
  (acts.filterMap Act.requester?).toFinset.erase user

/-- No session at all. -/
def start (capacity maxIdle : Nat) (now : UInt64) : Sessions where
  capacity := capacity
  maxIdle := maxIdle
  now := now
  live := []
  storages := #[]

variable {s : Sessions} {acts : List Act} {a : Act} {user other : String} {id idle : Nat} {time : UInt64}

@[simp] theorem after_nil (s : Sessions) : s.after [] = s := rfl

@[simp] theorem after_cons (s : Sessions) (a : Act) (acts : List Act) :
    s.after (a :: acts) = (s.act a).after acts := rfl

theorem after_append (s : Sessions) (before since : List Act) :
    s.after (before ++ since) = (s.after before).after since := by
  rw [after, List.foldl_append, after, after]

theorem answers_append (s : Sessions) (before since : List Act) :
    s.answers (before ++ since) = s.answers before ++ (s.after before).answers since := by
  induction before generalizing s with
  | nil => rfl
  | cons a before ih => simp only [List.cons_append, answers, ih, List.append_assoc, after_cons]

/-- What a request is answered with is among the answers. -/
theorem answer_of_request (s : Sessions) (before since : List Act) (user : String) :
    (user, ((s.after before).getOrCreate user).1) ∈ s.answers (before ++ .request user :: since) := by
  rw [answers_append, answers]
  exact List.mem_append_right _ (List.mem_append_left _ (Option.mem_toList.2 rfl))

@[simp] theorem elapsed_nil : elapsed [] = 0 := rfl

@[simp] theorem elapsed_cons (a : Act) (acts : List Act) :
    elapsed (a :: acts) = a.milliseconds + elapsed acts := rfl

@[simp] theorem elapsed_append (before since : List Act) :
    elapsed (before ++ since) = elapsed before + elapsed since := by
  induction before with
  | nil => simp
  | cons a before ih => simp only [List.cons_append, elapsed_cons, ih, Nat.add_assoc]

theorem others_append_request (h : other ≠ user) (acts : List Act) :
    others user (acts ++ [.request other]) = insert other (others user acts) := by
  ext name
  simp only [others, List.filterMap_append, List.filterMap_cons, Act.requester?, List.filterMap_nil,
    Finset.mem_erase, List.mem_toFinset, List.mem_append, List.mem_singleton, Finset.mem_insert]
  constructor
  · rintro ⟨hne, hmem | rfl⟩
    · exact .inr ⟨hne, hmem⟩
    · exact .inl rfl
  · rintro (rfl | ⟨hne, hmem⟩)
    · exact ⟨h, .inr rfl⟩
    · exact ⟨hne, .inl hmem⟩

theorem others_append_of_none (h : a.requester? = none) (user : String) (acts : List Act) :
    others user (acts ++ [a]) = others user acts := by
  simp [others, List.filterMap_append, h]

/-! ## Using a session -/

theorem getOrCreate_fixed (s : Sessions) (user : String) :
    (s.getOrCreate user).2.capacity = s.capacity ∧ (s.getOrCreate user).2.maxIdle = s.maxIdle ∧
      (s.getOrCreate user).2.now = s.now := by
  simp only [getOrCreate]
  split
  · split <;> exact ⟨rfl, rfl, rfl⟩
  · exact ⟨rfl, rfl, rfl⟩

/-- The session that a request of a user leaves in use. -/
def opened (s : Sessions) (user : String) : Session := ⟨user, (s.getOrCreate user).1, s.now⟩

/-- The session of a request is in front of all others, as far as there is room for them, whether it is
a new one or not. -/
theorem getOrCreate_live (s : Sessions) (user : String) :
    (s.getOrCreate user).2.live =
      (s.opened user :: s.live.filter (·.user != user)).take s.capacity := by
  simp only [opened, getOrCreate]
  split
  next session hfound =>
    have huser : session.user = user := by simpa using List.find?_some hfound
    split
    · simp only [use, huser]
    · rfl
  · rfl

/-- After a request there is the session of its user, and others that were there before. -/
theorem mem_live_getOrCreate {x : Session} (hx : x ∈ (s.getOrCreate user).2.live) :
    x = s.opened user ∨ x ∈ s.live ∧ x.user ≠ user := by
  rw [getOrCreate_live] at hx
  rcases List.mem_cons.1 (List.mem_of_mem_take hx) with hx | hx
  · exact .inl hx
  · obtain ⟨hlive, huser⟩ := List.mem_filter.1 hx
    exact .inr ⟨hlive, by simpa using huser⟩

/-- A request is answered with the storage of the session if there is one that has not been idle for too
long, and with a new one otherwise. -/
theorem getOrCreate_cases (s : Sessions) (user : String) :
    (∃ session ∈ s.live, session.user = user ∧ s.now.toNat - session.lastAccess.toNat ≤ s.maxIdle ∧
      (s.getOrCreate user).1 = session.storage ∧ (s.getOrCreate user).2.storages = s.storages) ∨
    (s.getOrCreate user).1 = s.storages.size ∧
      (s.getOrCreate user).2.storages = s.storages.push .empty := by
  simp only [getOrCreate]
  split
  next session hfound =>
    have huser : session.user = user := by simpa using List.find?_some hfound
    split
    next hlasts => exact .inl ⟨session, List.mem_of_find?_eq_some hfound, huser, hlasts, rfl, rfl⟩
    · exact .inr ⟨rfl, rfl⟩
  · exact .inr ⟨rfl, rfl⟩

theorem size_le_getOrCreate (s : Sessions) (user : String) :
    s.storages.size ≤ (s.getOrCreate user).2.storages.size := by
  obtain ⟨_, _, _, _, _, hstorages⟩ | ⟨_, hstorages⟩ := s.getOrCreate_cases user <;> simp [hstorages]

theorem getOrCreate_of_idle
    (h : ∀ x ∈ s.live, x.user = user → s.maxIdle < s.now.toNat - x.lastAccess.toNat) :
    (s.getOrCreate user).1 = s.storages.size := by
  obtain ⟨session, hlive, huser, hlasts, _⟩ | ⟨hnew, _⟩ := s.getOrCreate_cases user
  · exact absurd hlasts (h session hlive huser).not_ge
  · exact hnew

/-! ## Room and time -/

theorem act_fixed (s : Sessions) (a : Act) :
    (s.act a).capacity = s.capacity ∧ (s.act a).maxIdle = s.maxIdle := by
  cases a with
  | request user => exact ⟨(s.getOrCreate_fixed user).1, (s.getOrCreate_fixed user).2.1⟩
  | _ => exact ⟨rfl, rfl⟩

theorem act_now (s : Sessions) (a : Act) :
    (s.act a).now = s.now + UInt64.ofNat a.milliseconds := by
  cases a with
  | request user => simpa [act, Act.milliseconds] using (s.getOrCreate_fixed user).2.2
  | advance seconds nanoseconds => rfl
  | _ => simp [act, Act.milliseconds, purge, setStorage]

theorem after_fixed (s : Sessions) (acts : List Act) :
    (s.after acts).capacity = s.capacity ∧ (s.after acts).maxIdle = s.maxIdle := by
  induction acts generalizing s with
  | nil => exact ⟨rfl, rfl⟩
  | cons a acts ih =>
    obtain ⟨hcapacity, hidle⟩ := s.act_fixed a
    exact ⟨(ih (s.act a)).1.trans hcapacity, (ih (s.act a)).2.trans hidle⟩

/-- As long as the clock does not wrap around it shows how much time has passed. -/
theorem after_now (h : s.now.toNat + elapsed acts < UInt64.size) :
    (s.after acts).now.toNat = s.now.toNat + elapsed acts := by
  induction acts generalizing s with
  | nil => rfl
  | cons a acts ih =>
    rw [elapsed_cons] at h
    have hbound : s.now.toNat + a.milliseconds < UInt64.size := by omega
    have hnow : (s.act a).now.toNat = s.now.toNat + a.milliseconds := by
      rw [act_now, UInt64.toNat_add, UInt64.toNat_ofNat', Nat.add_mod_mod, Nat.mod_eq_of_lt hbound]
    rw [after_cons, ih (by omega), hnow, elapsed_cons, Nat.add_assoc]

/-! ## Soundness -/

theorem Sound.act (h : s.Sound) (a : Act) : (s.act a).Sound := by
  cases a with
  | request user => exact h.getOrCreate user
  | peek user => exact h
  | purge => exact h.purge
  | advance seconds nanoseconds => exact h.advance seconds nanoseconds
  | write id files => exact h.setStorage id files

theorem Sound.after (h : s.Sound) (acts : List Act) : (s.after acts).Sound := by
  induction acts generalizing s with
  | nil => exact h
  | cons a acts ih => exact ih (h.act a)

/-- Sessions that have room for one are sound, whatever becomes of them. -/
theorem sound_after_start {capacity : Nat} (hroom : 1 ≤ capacity) (maxIdle : Nat) (now : UInt64)
    (acts : List Act) : ((start capacity maxIdle now).after acts).Sound := by
  have hstart : (start capacity maxIdle now).Sound := ⟨hroom, fun _ h => nomatch h⟩
  exact hstart.after acts

/-! ## One session for each user -/

/-- No user has two sessions, and there are not more sessions than there is room for. -/
structure Distinct (s : Sessions) : Prop where
  users : (s.live.map Session.user).Nodup
  bounded : s.live.length ≤ s.capacity

/-- Putting a session in front of those of other users leaves one for each user. -/
theorem Distinct.nodup_front (h : s.Distinct) (session : Session) :
    ((session :: s.live.filter (·.user != session.user)).map Session.user).Nodup := by
  rw [List.map_cons, List.nodup_cons]
  refine ⟨fun hmem => ?_, (List.filter_sublist.map Session.user).nodup h.users⟩
  obtain ⟨x, hx, hxuser⟩ := List.mem_map.1 hmem
  simpa [hxuser] using (List.mem_filter.1 hx).2

theorem Distinct.getOrCreate (h : s.Distinct) (user : String) : (s.getOrCreate user).2.Distinct where
  users := by
    rw [getOrCreate_live]
    exact ((List.take_sublist _ _).map Session.user).nodup (h.nodup_front (s.opened user))
  bounded := by
    rw [getOrCreate_live, (s.getOrCreate_fixed user).1]
    exact List.length_take_le _ _

theorem Distinct.act (h : s.Distinct) (a : Act) : (s.act a).Distinct := by
  cases a with
  | request user => exact h.getOrCreate user
  | purge =>
    exact ⟨(List.filter_sublist.map Session.user).nodup h.users,
      (List.length_filter_le _ _).trans h.bounded⟩
  | _ => exact ⟨h.users, h.bounded⟩

theorem Distinct.after (h : s.Distinct) (acts : List Act) : (s.after acts).Distinct := by
  induction acts generalizing s with
  | nil => exact h
  | cons a acts ih => exact ih (h.act a)

theorem Distinct.start (capacity maxIdle : Nat) (now : UInt64) : (start capacity maxIdle now).Distinct :=
  ⟨.nil, Nat.zero_le _⟩

theorem Distinct.session?_eq (h : s.Distinct) {session : Session} (hlive : session ∈ s.live) :
    s.session? session.user = some session := by
  obtain ⟨found, hfound⟩ := Option.isSome_iff_exists.1
    (List.find?_isSome (p := fun x => x.user == session.user) |>.2 ⟨session, hlive, by simp⟩)
  have huser : found.user = session.user := by simpa using List.find?_some hfound
  have heq := List.inj_on_of_nodup_map h.users (List.mem_of_find?_eq_some hfound) hlive huser
  exact heq ▸ hfound

theorem Distinct.getOrCreate_eq (h : s.Distinct) {session : Session} (hlive : session ∈ s.live)
    (hlasts : s.now.toNat - session.lastAccess.toNat ≤ s.maxIdle) :
    (s.getOrCreate session.user).1 = session.storage := by
  simp [Sessions.getOrCreate, h.session?_eq hlive, hlasts]

/-! ## What becomes of a session -/

/-- What has become of the session that a user had at some time, with some storage, when other users have
had theirs used since and it has been idle for some time. It is there, behind the sessions that have been
used since, of which some may be missing if it has expired itself; or it is gone because it had expired
or because there have been too many others. -/
inductive Remains (s : Sessions) (user : String) (id : Nat) (time : UInt64) (rest : Finset String)
    (idle : Nat) : Prop
  | kept (newer older : List Session) (hlive : s.live = newer ++ ⟨user, id, time⟩ :: older)
      (hafter : ∀ x ∈ newer, time.toNat ≤ x.lastAccess.toNat) (hrest : ∀ x ∈ newer, x.user ∈ rest)
      (hall : idle ≤ s.maxIdle → ∀ other ∈ rest, ∃ x ∈ newer, x.user = other)
  | gone (hgone : ∀ x ∈ s.live, x.user ≠ user) (hwhy : s.maxIdle < idle ∨ s.capacity ≤ rest.card)

variable {rest : Finset String}

theorem isExpired_iff (hnow : s.now.toNat = time.toNat + idle) :
    s.isExpired ⟨user, id, time⟩ = true ↔ s.maxIdle < idle := by
  simp [isExpired, hnow]

/-- Different users are as many as there are sessions of theirs. -/
theorem length_le_card {sessions : List Session} (hd : (sessions.map Session.user).Nodup)
    (h : ∀ x ∈ sessions, x.user ∈ rest) : sessions.length ≤ rest.card := by
  rw [← List.length_map Session.user, ← List.toFinset_card_of_nodup hd]
  refine Finset.card_le_card fun name hname => ?_
  obtain ⟨x, hx, rfl⟩ := List.mem_map.1 (List.mem_toFinset.1 hname)
  exact h x hx

theorem card_le_length {sessions : List Session}
    (h : ∀ other ∈ rest, ∃ x ∈ sessions, x.user = other) : rest.card ≤ sessions.length := by
  rw [← List.length_map Session.user]
  refine (Finset.card_le_card fun name hname => ?_).trans (List.toFinset_card_le _)
  obtain ⟨x, hx, rfl⟩ := h name hname
  exact List.mem_toFinset.2 (List.mem_map_of_mem hx)

/-- The storage is the same one exactly as long as the session has not expired and there have been fewer
others than there is room for. -/
theorem Remains.getOrCreate (h : s.Remains user id time rest idle) (hd : s.Distinct)
    (hnow : s.now.toNat = time.toNat + idle) :
    (s.getOrCreate user).1 =
      if idle ≤ s.maxIdle ∧ rest.card < s.capacity then id else s.storages.size := by
  obtain ⟨newer, older, hlive, hafter, hrest, hall⟩ | ⟨hgone, hwhy⟩ := h
  · have hmem : ⟨user, id, time⟩ ∈ s.live := by simp [hlive]
    split
    next hlasts =>
      have hidle : s.now.toNat - time.toNat ≤ s.maxIdle := by omega
      exact hd.getOrCreate_eq hmem hidle
    next hends =>
      -- As long as it has not expired all sessions of others are in front of it, and they have room.
      have hroom : rest.card < s.capacity ∨ s.maxIdle < idle := by
        by_cases hidle : idle ≤ s.maxIdle
        · have hbounded := hd.bounded
          have hcard := card_le_length (hall hidle)
          simp only [hlive, List.length_append, List.length_cons] at hbounded
          omega
        · omega
      have hidle : s.maxIdle < s.now.toNat - time.toNat := by omega
      refine getOrCreate_of_idle fun x hx huser => ?_
      rw [List.inj_on_of_nodup_map hd.users hx hmem huser]
      exact hidle
  · rw [if_neg (by omega)]
    exact getOrCreate_of_idle fun x hx huser => absurd huser (hgone x hx)

/-- The sessions in front of that of one user once another one has made a request. -/
def front (s : Sessions) (other : String) (newer : List Session) : List Session :=
  s.opened other :: newer.filter (·.user != other)

variable {newer older : List Session}

theorem getOrCreate_live_front (hlive : s.live = newer ++ ⟨user, id, time⟩ :: older)
    (hne : other ≠ user) :
    s.opened other :: s.live.filter (·.user != other) =
      s.front other newer ++ ⟨user, id, time⟩ :: older.filter (·.user != other) := by
  rw [hlive, List.filter_append, List.filter_cons_of_pos (by simpa using hne.symm)]
  rfl

theorem mem_front {x : Session} (hx : x ∈ s.front other newer) : x = s.opened other ∨ x ∈ newer := by
  rcases List.mem_cons.1 hx with hx | hx
  · exact .inl hx
  · exact .inr (List.mem_filter.1 hx).1

theorem user_of_mem_front (hrest : ∀ x ∈ newer, x.user ∈ rest) {x : Session}
    (hx : x ∈ s.front other newer) : x.user ∈ insert other rest := by
  obtain rfl | hx := mem_front hx
  · exact Finset.mem_insert_self other rest
  · exact Finset.mem_insert_of_mem (hrest x hx)

/-- While there is room a session stays behind those in front of it. -/
theorem Remains.request_of_room (hlive : s.live = newer ++ ⟨user, id, time⟩ :: older)
    (hafter : ∀ x ∈ newer, time.toNat ≤ x.lastAccess.toNat) (hrest : ∀ x ∈ newer, x.user ∈ rest)
    (hall : idle ≤ s.maxIdle → ∀ other ∈ rest, ∃ x ∈ newer, x.user = other)
    (hnow : time.toNat ≤ s.now.toNat) (hne : other ≠ user)
    (hroom : (s.front other newer).length < s.capacity) :
    (s.getOrCreate other).2.Remains user id time (insert other rest) idle := by
  obtain ⟨room, hroom⟩ := Nat.exists_eq_add_of_lt hroom
  refine .kept (s.front other newer) ((older.filter (·.user != other)).take room) ?_ ?_
    (fun x => user_of_mem_front hrest) ?_
  · rw [getOrCreate_live, getOrCreate_live_front hlive hne, hroom, Nat.add_assoc,
      List.take_length_add_append, List.take_succ_cons]
  · intro x hx
    obtain rfl | hx := mem_front hx
    · exact hnow
    · exact hafter x hx
  · intro hfresh name hname
    by_cases hother : name = other
    · exact ⟨s.opened other, List.mem_cons_self, hother.symm⟩
    · obtain ⟨x, hx, hxuser⟩ := hall ((s.getOrCreate_fixed other).2.1 ▸ hfresh) name
        (Finset.mem_of_mem_insert_of_ne hname hother)
      exact ⟨x, List.mem_cons_of_mem _ (List.mem_filter.2 ⟨hx, by simp [hxuser, hother]⟩), hxuser⟩

/-- Where there is no room for more than the sessions in front of it, a session goes. -/
theorem Remains.request_of_full (hd : s.Distinct)
    (hlive : s.live = newer ++ ⟨user, id, time⟩ :: older) (hrest : ∀ x ∈ newer, x.user ∈ rest)
    (hne : other ≠ user) (hfull : s.capacity ≤ (s.front other newer).length) :
    (s.getOrCreate other).2.Remains user id time (insert other rest) idle := by
  have hnodup : ((s.opened other :: s.live.filter (·.user != other)).map Session.user).Nodup :=
    hd.nodup_front (s.opened other)
  have hlive' := s.getOrCreate_live other
  rw [getOrCreate_live_front hlive hne] at hnodup hlive'
  rw [List.take_append_of_le_length hfull] at hlive'
  rw [List.map_append, List.map_cons] at hnodup
  refine .gone (fun x hx hxuser => ?_) (.inr ?_)
  · rw [hlive'] at hx
    exact List.disjoint_of_nodup_append hnodup (List.mem_map_of_mem (List.mem_of_mem_take hx))
      (hxuser ▸ List.mem_cons_self)
  · rw [(s.getOrCreate_fixed other).1]
    exact hfull.trans (length_le_card hnodup.of_append_left fun x => user_of_mem_front hrest)

/-- A request of another user puts another session in front, for which the last one gives way. -/
theorem Remains.request (h : s.Remains user id time rest idle) (hd : s.Distinct)
    (hnow : s.now.toNat = time.toNat + idle) (hne : other ≠ user) :
    (s.getOrCreate other).2.Remains user id time (insert other rest) idle := by
  obtain ⟨newer, older, hlive, hafter, hrest, hall⟩ | ⟨hgone, hwhy⟩ := h
  · rcases Nat.lt_or_ge (s.front other newer).length s.capacity with hroom | hfull
    · exact request_of_room hlive hafter hrest hall (by omega) hne hroom
    · exact request_of_full hd hlive hrest hne hfull
  · obtain ⟨hcapacity, hidle, _⟩ := s.getOrCreate_fixed other
    refine .gone (fun x hx => ?_) ?_
    · obtain rfl | ⟨hx, _⟩ := mem_live_getOrCreate hx
      · exact hne
      · exact hgone x hx
    · rw [hcapacity, hidle]
      exact hwhy.imp_right fun hcard => hcard.trans (Finset.card_le_card (Finset.subset_insert _ _))

/-- A purge that leaves a session leaves everything in front of it. -/
theorem Remains.purge (h : s.Remains user id time rest idle) (hd : s.Distinct)
    (hnow : s.now.toNat = time.toNat + idle) : s.purge.2.Remains user id time rest idle := by
  have hlive' : s.purge.2.live = s.live.filter fun x => !s.isExpired x := rfl
  obtain ⟨newer, older, hlive, hafter, hrest, hall⟩ | ⟨hgone, hwhy⟩ := h
  · by_cases hidle : s.maxIdle < idle
    · refine .gone (fun x hx huser => ?_) (.inl hidle)
      obtain ⟨hx, hfresh⟩ := List.mem_filter.1 hx
      have heq : x = ⟨user, id, time⟩ := List.inj_on_of_nodup_map hd.users hx (by simp [hlive]) huser
      rw [heq, (isExpired_iff hnow).2 hidle] at hfresh
      cases hfresh
    · have hnewer : newer.filter (fun x => !s.isExpired x) = newer := by
        refine List.filter_eq_self.2 fun x hx => ?_
        have hx := hafter x hx
        simp only [isExpired, Bool.not_eq_true', decide_eq_false_iff_not]
        omega
      refine .kept newer (older.filter fun x => !s.isExpired x) ?_ hafter hrest hall
      have hfresh : (!s.isExpired ⟨user, id, time⟩) = true := by
        simpa [← Bool.not_eq_true, isExpired_iff hnow] using hidle
      rw [hlive', hlive, List.filter_append, hnewer,
        List.filter_cons_of_pos (p := fun x => !s.isExpired x) hfresh]
  · exact .gone (fun x hx => hgone x (List.mem_filter.1 hx).1) hwhy

/-- What has become of a session after one more act. -/
theorem Remains.act (h : s.Remains user id time (others user acts) idle) (hd : s.Distinct)
    (hnow : s.now.toNat = time.toNat + idle) (hne : a ≠ .request user) :
    (s.act a).Remains user id time (others user (acts ++ [a])) (idle + a.milliseconds) := by
  cases a with
  | request other =>
    have hne : other ≠ user := fun heq => hne (heq ▸ rfl)
    rw [others_append_request hne]
    exact h.request hd hnow hne
  | purge =>
    rw [others_append_of_none rfl]
    exact h.purge hd hnow
  | advance seconds nanoseconds =>
    rw [others_append_of_none rfl]
    obtain ⟨newer, older, hlive, hafter, hrest, hall⟩ | ⟨hgone, hwhy⟩ := h
    · exact .kept newer older hlive hafter hrest fun hidle => hall (Nat.le_of_add_right_le hidle)
    · exact .gone hgone (hwhy.imp_left fun hidle => Nat.lt_add_right _ hidle)
  | _ =>
    rw [others_append_of_none rfl]
    obtain ⟨newer, older, hlive, hafter, hrest, hall⟩ | ⟨hgone, hwhy⟩ := h
    · exact .kept newer older hlive hafter hrest hall
    · exact .gone hgone hwhy

/-- What has become of the session of a user's latest request. -/
theorem remains_after (hroom : 1 ≤ s.capacity) (hd : s.Distinct)
    (htime : s.now.toNat + elapsed acts < UInt64.size) (hlatest : .request user ∉ acts) :
    ((s.act (.request user)).after acts).Remains user (s.getOrCreate user).1 s.now (others user acts)
      (elapsed acts) := by
  induction acts using List.reverseRecOn with
  | nil =>
    obtain ⟨room, hroom⟩ := Nat.exists_eq_add_of_le' hroom
    refine .kept [] ((s.live.filter (·.user != user)).take room) ?_ (fun _ h => nomatch h)
      (fun _ h => nomatch h) (fun _ _ h => nomatch h)
    rw [after_nil, act, getOrCreate_live, hroom, List.take_succ_cons, List.nil_append, opened]
  | append_singleton acts a ih =>
    rw [elapsed_append] at htime
    obtain ⟨hnot, hne⟩ : .request user ∉ acts ∧ a ≠ .request user := by
      simpa [eq_comm] using hlatest
    have hnow : ((s.act (.request user)).after acts).now.toNat = s.now.toNat + elapsed acts := by
      rw [after_now] <;> rw [act, (s.getOrCreate_fixed user).2.2]
      omega
    rw [after_append, elapsed_append]
    have hstep := (ih (by omega) hnot).act ((hd.act _).after acts) hnow hne
    simpa using hstep

/-! ## Whose a storage is -/

/-- Every session has a storage that has been handed out to its user. -/
def Owned (s : Sessions) (owner : Nat → String) : Prop :=
  ∀ session ∈ s.live, session.storage < s.storages.size ∧ owner session.storage = session.user

/-- Two records of the owners of storages agree on those that have been handed out. -/
def Agrees (s : Sessions) (owner owner' : Nat → String) : Prop :=
  ∀ n < s.storages.size, owner' n = owner n

variable {owner : Nat → String}

/-- A request is answered with a storage of its user, which may be a new one. -/
theorem Owned.getOrCreate (h : s.Owned owner) (user : String) :
    ∃ owner', s.Agrees owner owner' ∧ (s.getOrCreate user).2.Owned owner' ∧
      owner' (s.getOrCreate user).1 = user ∧
      (s.getOrCreate user).1 < (s.getOrCreate user).2.storages.size := by
  obtain ⟨session, hlive, huser, _, hid, hstorages⟩ | ⟨hid, hstorages⟩ := s.getOrCreate_cases user
  · obtain ⟨hlt, howner⟩ := h session hlive
    refine ⟨owner, fun _ _ => rfl, ?_, hid ▸ howner.trans huser, hid ▸ hstorages ▸ hlt⟩
    intro x hx
    obtain rfl | ⟨hx, _⟩ := mem_live_getOrCreate hx
    · exact ⟨by rwa [opened, hid, hstorages], by rw [opened, hid, howner, huser]⟩
    · exact hstorages ▸ h x hx
  · have hsize : (s.getOrCreate user).2.storages.size = s.storages.size + 1 := by
      rw [hstorages, Array.size_push]
    have hagrees : s.Agrees owner (Function.update owner s.storages.size user) :=
      fun n hn => Function.update_of_ne (by omega) _ _
    refine ⟨_, hagrees, ?_, by rw [hid, Function.update_self], by omega⟩
    intro x hx
    obtain rfl | ⟨hx, _⟩ := mem_live_getOrCreate hx
    · have hlt : s.storages.size < (s.getOrCreate user).2.storages.size := by omega
      exact ⟨by rwa [opened, hid], by rw [opened, hid, Function.update_self]⟩
    · obtain ⟨hlt, howner⟩ := h x hx
      exact ⟨by omega, (hagrees _ hlt).trans howner⟩

/-- Every act keeps the owners, and what it answers with is a storage of the user it asks for. -/
theorem Owned.act (h : s.Owned owner) (a : Act) :
    ∃ owner', s.Agrees owner owner' ∧ (s.act a).Owned owner' ∧
      s.storages.size ≤ (s.act a).storages.size ∧
      ∀ answer ∈ s.answer? a, owner' answer.2 = answer.1 ∧ answer.2 < (s.act a).storages.size := by
  cases a with
  | request user =>
    obtain ⟨owner', hagrees, howned, howner, hlt⟩ := h.getOrCreate user
    refine ⟨owner', hagrees, howned, s.size_le_getOrCreate user, fun answer hanswer => ?_⟩
    cases hanswer
    exact ⟨howner, hlt⟩
  | peek user =>
    refine ⟨owner, fun _ _ => rfl, h, le_rfl, fun answer hanswer => ?_⟩
    obtain ⟨id, hid, rfl⟩ := Option.map_eq_some_iff.1 hanswer
    simp only [get?] at hid
    split at hid
    next session hfound =>
      split at hid
      · cases hid
      · cases hid
        have huser : session.user = user := by simpa using List.find?_some hfound
        obtain ⟨hlt, howner⟩ := h session (List.mem_of_find?_eq_some hfound)
        exact ⟨howner.trans huser, hlt⟩
    · cases hid
  | purge =>
    exact ⟨owner, fun _ _ => rfl, fun x hx => h x (List.mem_filter.1 hx).1, le_rfl,
      fun _ hanswer => nomatch hanswer⟩
  | advance seconds nanoseconds =>
    exact ⟨owner, fun _ _ => rfl, h, le_rfl, fun _ hanswer => nomatch hanswer⟩
  | write id files =>
    have hsize : (s.act (.write id files)).storages.size = s.storages.size := Array.size_modify
    exact ⟨owner, fun _ _ => rfl, fun x hx => hsize ▸ h x hx, hsize.ge,
      fun _ hanswer => nomatch hanswer⟩

/-- All storages that acts answer with have an owner, the user they ask for. -/
theorem Owned.after (h : s.Owned owner) (acts : List Act) :
    ∃ owner', s.Agrees owner owner' ∧ (s.after acts).Owned owner' ∧
      s.storages.size ≤ (s.after acts).storages.size ∧
      ∀ answer ∈ s.answers acts,
        owner' answer.2 = answer.1 ∧ answer.2 < (s.after acts).storages.size := by
  induction acts generalizing s owner with
  | nil => exact ⟨owner, fun _ _ => rfl, h, le_rfl, fun _ hanswer => nomatch hanswer⟩
  | cons a acts ih =>
    obtain ⟨middle, hagrees, howned, hsize, hanswer⟩ := h.act a
    obtain ⟨owner', hagrees', howned', hsize', hanswers⟩ := ih howned
    refine ⟨owner', fun n hn => ?_, howned', hsize.trans hsize', fun answer hmem => ?_⟩
    · exact (hagrees' n (by omega)).trans (hagrees n hn)
    · rcases List.mem_append.1 hmem with hmem | hmem
      · obtain ⟨howner, hlt⟩ := hanswer answer (Option.mem_toList.1 hmem)
        exact ⟨(hagrees' _ hlt).trans howner, by rw [after_cons]; omega⟩
      · exact hanswers answer hmem

theorem Owned.start (capacity maxIdle : Nat) (now : UInt64) (owner : Nat → String) :
    (start capacity maxIdle now).Owned owner := fun _ h => nomatch h

/-- A storage that two users have been given at different times is that of one user. -/
theorem Owned.user_eq (h : s.Owned owner) (acts : List Act)
    (hsame : (((s.getOrCreate user).2.after acts).getOrCreate other).1 = (s.getOrCreate user).1) :
    other = user := by
  obtain ⟨owner₁, _, howned₁, huser, hlt⟩ := h.getOrCreate user
  obtain ⟨owner₂, hagrees₂, howned₂, hsize, _⟩ := howned₁.after acts
  obtain ⟨owner₃, hagrees₃, _, hother, _⟩ := howned₂.getOrCreate other
  rw [← hother, hsame, hagrees₃ _ (by omega), hagrees₂ _ hlt, huser]

/-- The storages that a user is given have at least this number from now on. -/
def AtLeast (s : Sessions) (user : String) (n : Nat) : Prop :=
  n ≤ s.storages.size ∧ ∀ session ∈ s.live, session.user = user → n ≤ session.storage

variable {n : Nat}

theorem AtLeast.getOrCreate_le (h : s.AtLeast user n) : n ≤ (s.getOrCreate user).1 := by
  obtain ⟨session, hlive, huser, _, hid, _⟩ | ⟨hid, _⟩ := s.getOrCreate_cases user
  · exact hid ▸ h.2 session hlive huser
  · exact hid ▸ h.1

/-- The session of a request is the only one of its user. -/
theorem atLeast_getOrCreate (h : s.Owned owner) (user : String) :
    (s.getOrCreate user).2.AtLeast user (s.getOrCreate user).1 := by
  obtain ⟨_, _, _, _, hlt⟩ := h.getOrCreate user
  refine ⟨hlt.le, fun session hlive huser => ?_⟩
  obtain rfl | ⟨_, hother⟩ := mem_live_getOrCreate hlive
  · exact le_rfl
  · exact absurd huser hother

theorem AtLeast.act (h : s.AtLeast user n) (a : Act) : (s.act a).AtLeast user n := by
  cases a with
  | request other =>
    refine ⟨h.1.trans (s.size_le_getOrCreate other), fun session hlive huser => ?_⟩
    obtain rfl | ⟨hlive, _⟩ := mem_live_getOrCreate hlive
    · obtain rfl : other = user := huser
      exact h.getOrCreate_le
    · exact h.2 session hlive huser
  | purge => exact ⟨h.1, fun session hlive huser => h.2 session (List.mem_filter.1 hlive).1 huser⟩
  | write id files =>
    exact ⟨h.1.trans_eq Array.size_modify.symm, h.2⟩
  | _ => exact h

/-- A user is not given an earlier storage again. -/
theorem Owned.getOrCreate_le (h : s.Owned owner) (user : String) (acts : List Act) :
    (s.getOrCreate user).1 ≤ (((s.getOrCreate user).2.after acts).getOrCreate user).1 := by
  refine AtLeast.getOrCreate_le ?_
  have hat := atLeast_getOrCreate h user
  generalize (s.getOrCreate user).2 = s' at hat
  induction acts generalizing s' with
  | nil => exact hat
  | cons a acts ih => exact ih _ (hat.act a)

/-! ## The storage of a request -/

/-- The latest request of a user among some acts is the one between these two parts of them. -/
def Latest (user : String) (acts before since : List Act) : Prop :=
  acts = before ++ .request user :: since ∧ .request user ∉ since

theorem exists_latest (h : .request user ∈ acts) : ∃ before since, Latest user acts before since := by
  obtain ⟨since, before, hsplit, hnot⟩ := List.eq_append_cons_of_mem (List.mem_reverse.2 h)
  refine ⟨before.reverse, since.reverse, ?_, mt List.mem_reverse.1 hnot⟩
  rw [← List.reverse_reverse acts, hsplit]
  simp

/-- Without a request of a user there is no session of that user. -/
theorem no_session_after (h : .request user ∉ acts) (hs : ∀ x ∈ s.live, x.user ≠ user) :
    ∀ x ∈ (s.after acts).live, x.user ≠ user := by
  induction acts generalizing s with
  | nil => exact hs
  | cons a acts ih =>
    refine ih (List.not_mem_of_not_mem_cons h) fun x hx => ?_
    cases a with
    | request other =>
      obtain rfl | ⟨hx, _⟩ := mem_live_getOrCreate hx
      · exact fun heq => List.ne_of_not_mem_cons h (congrArg Act.request heq.symm)
      · exact hs x hx
    | purge => exact hs x (List.mem_filter.1 hx).1
    | _ => exact hs x hx

theorem getOrCreate_of_latest {before since : List Act} (hroom : 1 ≤ s.capacity) (hd : s.Distinct)
    (htime : s.now.toNat + elapsed acts < UInt64.size) (hlatest : Latest user acts before since) :
    ((s.after acts).getOrCreate user).1 =
      if elapsed since ≤ s.maxIdle ∧ (others user since).card < s.capacity then
        ((s.after before).getOrCreate user).1
      else (s.after acts).storages.size := by
  obtain ⟨rfl, hnot⟩ := hlatest
  obtain ⟨hcapacity, hidle⟩ := s.after_fixed before
  have hinstant : (Act.request user).milliseconds = 0 := rfl
  rw [elapsed_append, elapsed_cons, hinstant] at htime
  have hnow : (s.after before).now.toNat = s.now.toNat + elapsed before := after_now (by omega)
  have hremains := remains_after (hcapacity ▸ hroom) (hd.after before) (by omega) hnot
  have hd' := ((hd.after before).act (.request user)).after since
  have hnow' : (((s.after before).act (.request user)).after since).now.toNat =
      (s.after before).now.toNat + elapsed since := by
    rw [after_now] <;> rw [act, ((s.after before).getOrCreate_fixed user).2.2]
    omega
  have hfixed := ((s.after before).act (.request user)).after_fixed since
  rw [((s.after before).act_fixed _).1, ((s.after before).act_fixed _).2, hcapacity, hidle] at hfixed
  rw [after_append, after_cons, hremains.getOrCreate hd' hnow', hfixed.1, hfixed.2]

/-- The storage that a user gets after any acts is the one of the latest request of the same user if and
only if it has not been longer since than a session may be idle and fewer other users than there is room
for have made requests since. Otherwise it is an empty one that no act has answered with. There are never
more sessions than there is room for, and no storage is that of two users. -/
theorem getOrCreate_after (capacity maxIdle : Nat) (now : UInt64) (acts : List Act) (user : String)
    (hroom : 1 ≤ capacity) (htime : now.toNat + elapsed acts < UInt64.size) :
    let s := start capacity maxIdle now
    let id := ((s.after acts).getOrCreate user).1
    (∀ before since, Latest user acts before since →
      (id = ((s.after before).getOrCreate user).1 ↔
        elapsed since ≤ maxIdle ∧ (others user since).card < capacity)) ∧
    ((∀ before since, Latest user acts before since →
        ¬(elapsed since ≤ maxIdle ∧ (others user since).card < capacity)) →
      (∀ answer ∈ s.answers acts, answer.2 ≠ id) ∧
        ((s.after acts).getOrCreate user).2.storages[id]? = some .empty) ∧
    (s.after acts).size ≤ capacity ∧
    ∀ one ∈ s.answers acts, ∀ other ∈ s.answers acts, one.2 = other.2 → one.1 = other.1 := by
  intro s id
  have hd : s.Distinct := .start capacity maxIdle now
  obtain ⟨owner, _, howned, _, howner⟩ := (Owned.start capacity maxIdle now fun _ => "").after acts
  refine ⟨fun before since hlatest => ?_, fun hends => ?_, ?_, fun one hone other hother heq => ?_⟩
  · have hid : id = _ := getOrCreate_of_latest hroom hd htime hlatest
    obtain ⟨rfl, hnot⟩ := hlatest
    -- The latest request is answered with a storage, which therefore is not the next new one.
    have hlt : ((s.after before).getOrCreate user).1 <
        (s.after (before ++ .request user :: since)).storages.size :=
      (howner (user, _) (answer_of_request s before since user)).2
    rw [hid]
    split
    next hlasts => exact iff_of_true rfl hlasts
    next hlost => exact iff_of_false (by omega) hlost
  · have hnew : id = (s.after acts).storages.size := by
      by_cases hrequest : .request user ∈ acts
      · obtain ⟨before, since, hlatest⟩ := exists_latest hrequest
        have hid : id = _ := getOrCreate_of_latest hroom hd htime hlatest
        rw [hid]
        exact if_neg (hends before since hlatest)
      · have hnone := no_session_after (s := s) hrequest fun _ h => absurd h List.not_mem_nil
        exact getOrCreate_of_idle fun x hx huser => absurd huser (hnone x hx)
    refine ⟨fun answer hanswer => hnew ▸ (howner answer hanswer).2.ne, ?_⟩
    obtain ⟨session, hlive, _, _, hid, _⟩ | ⟨_, hstorages⟩ := (s.after acts).getOrCreate_cases user
    · have hlt := (howned session hlive).1
      exact absurd (hid.symm.trans hnew) hlt.ne
    · rw [hstorages, hnew, Array.getElem?_push_size]
  · have hbounded := (hd.after acts).bounded
    rwa [(s.after_fixed acts).1] at hbounded
  · rw [← (howner one hone).1, ← (howner other hother).1, heq]

/-- With room for two, a user comes back after 200 seconds to the files of before: another user has made
requests since, and a session that had just been looked at has not been used by that. -/
theorem getOrCreate_after_absence :
    let s := start 2 300000 0
    let files := Scratch.empty.write "/.lock" "alice".toUTF8
    let since := [.write 0 files, .request "bob", .advance 200 0, .peek "alice", .purge]
    let acts := .request "alice" :: since
    1 ≤ 2 ∧ (0 : UInt64).toNat + elapsed acts < UInt64.size ∧
      ((s.after acts).getOrCreate "alice").1 = (s.getOrCreate "alice").1 := by
  intro s files since acts
  have hroom : 1 ≤ 2 := by decide
  have htime : (0 : UInt64).toNat + elapsed acts < UInt64.size := by decide
  have hlatest : Latest "alice" acts [] since := ⟨rfl, by simp [since]⟩
  have hothers : (others "alice" since).card < 2 := by decide
  refine ⟨hroom, htime, ?_⟩
  exact ((getOrCreate_after 2 300000 0 acts "alice" hroom htime).1 [] since hlatest).2
    ⟨by decide, hothers⟩

end WikiMount.Sessions
