import WikiMount.Proofs.Session.Recency

/-!
# Which sessions are live

How long a session lasts is tested in two ways. A request of its user keeps it as long as it has been idle
for no longer than the limit; a look-up does not find it, and a purge drops it, once it has been idle for
longer. Exactly one of the two holds of a session, also when it has been idle for just as long as it may
be, so requests, look-ups and purges agree at every instant and after any acts. A look-up finds the
storage that a request would be answered with, unless that would be a new one, and a purge drops exactly
the sessions whose users a look-up does not find. The invariant behind it is that there is one session for
each user, and that its storage was handed out to this user before.
-/

namespace WikiMount.Sessions

/-- The users that have a session, expired or not, the most recent one first. -/
def users (s : Sessions) : List String := s.live.map Session.user

/-- One of the acts was a request of the user, and was answered with the storage. -/
def HandedOut (s : Sessions) (acts : List Act) (user : String) (id : Nat) : Prop :=
  ∃ before since, acts = before ++ .request user :: since ∧ ((s.after before).getOrCreate user).1 = id

variable {s : Sessions} {session : Session} {acts : List Act} {a : Act} {user : String} {id : Nat}

/-! ## Looking up -/

/-- A look-up finds the storage of the user's session if that has not expired. -/
theorem Distinct.get?_eq_some_iff (h : s.Distinct) : s.get? user = some id ↔
    ∃ session ∈ s.live, session.user = user ∧ s.isExpired session = false ∧ session.storage = id := by
  simp only [get?]
  constructor
  · intro hfound
    split at hfound
    next session hsession =>
      have huser : session.user = user := by simpa using List.find?_some hsession
      have hlive : session ∈ s.live := List.mem_of_find?_eq_some hsession
      split at hfound
      · cases hfound
      next hfresh => exact ⟨session, hlive, huser, by simpa using hfresh, Option.some.inj hfound⟩
    · cases hfound
  · rintro ⟨session, hlive, rfl, hfresh, rfl⟩
    simp [h.session?_eq hlive, hfresh]

theorem Distinct.isSome_get? (h : s.Distinct) (hlive : session ∈ s.live) :
    (s.get? session.user).isSome = !s.isExpired session := by
  simp only [get?, h.session?_eq hlive]
  cases s.isExpired session <;> rfl

/-- What has not expired is what a request keeps, to the last millisecond. -/
theorem isExpired_eq_false_iff :
    s.isExpired session = false ↔ s.now.toNat - session.lastAccess.toNat ≤ s.maxIdle := by
  simp [isExpired]

/-- A request is answered with what a look-up finds, and with a new storage if it finds nothing. -/
theorem getOrCreate_eq_get? (s : Sessions) (user : String) :
    (s.getOrCreate user).1 = (s.get? user).getD s.storages.size := by
  simp only [getOrCreate, get?]
  split
  next session _ =>
    by_cases hlasts : s.now.toNat - session.lastAccess.toNat ≤ s.maxIdle
    · have hfresh : s.isExpired session = false := isExpired_eq_false_iff.2 hlasts
      rw [if_pos hlasts, hfresh]
      rfl
    · have hexpired : s.isExpired session = true :=
        Bool.of_not_eq_false (mt isExpired_eq_false_iff.1 hlasts)
      rw [if_neg hlasts, hexpired]
      rfl
  · rfl

/-! ## Dropping -/

/-- A purge leaves the sessions of the users that a look-up finds, as they are and in their order. -/
theorem Distinct.purge_eq (h : s.Distinct) :
    s.purge.2 = { s with live := s.live.filter fun x => (s.get? x.user).isSome } := by
  have hlive : (s.live.filter fun x => !s.isExpired x) =
      s.live.filter fun x => (s.get? x.user).isSome :=
    List.filter_congr fun x hx => (h.isSome_get? hx).symm
  rw [purge, hlive]

/-- A purge counts the users that have a session but are not found by a look-up. -/
theorem Distinct.purge_count (h : s.Distinct) :
    s.purge.1 = (s.users.filter fun user => (s.get? user).isNone).length := by
  have hlive : s.live.filter s.isExpired =
      s.live.filter ((fun user => (s.get? user).isNone) ∘ Session.user) := by
    refine List.filter_congr fun x hx => ?_
    rw [Function.comp_apply, ← Option.not_isSome, h.isSome_get? hx, Bool.not_not]
  rw [Sessions.users, List.filter_map, List.length_map, ← hlive, purge]

/-- A purge does not change what is looked up, for it drops only what a look-up does not find. -/
theorem Distinct.get?_purge (h : s.Distinct) (user : String) : s.purge.2.get? user = s.get? user := by
  have hpurged : s.purge.2.Distinct := h.act .purge
  refine Option.ext fun id => ?_
  rw [h.get?_eq_some_iff, hpurged.get?_eq_some_iff]
  constructor
  · rintro ⟨session, hlive, hrest⟩
    exact ⟨session, (List.mem_filter.1 hlive).1, hrest⟩
  · rintro ⟨session, hlive, huser, hfresh, hid⟩
    exact ⟨session, List.mem_filter.2 ⟨hlive, by simp [hfresh]⟩, huser, hfresh, hid⟩

/-! ## Storages handed out before -/

theorem HandedOut.concat (h : s.HandedOut acts user id) (a : Act) :
    s.HandedOut (acts ++ [a]) user id := by
  obtain ⟨before, since, rfl, hid⟩ := h
  exact ⟨before, since ++ [a], by simp, hid⟩

/-- The storage of every session was handed out to its user. -/
theorem handedOut_of_live (hs : s.live = []) {x : Session} (hx : x ∈ (s.after acts).live) :
    s.HandedOut acts x.user x.storage := by
  induction acts using List.reverseRecOn generalizing x with
  | nil =>
    rw [after_nil, hs] at hx
    cases hx
  | append_singleton acts a ih =>
    rw [after_append] at hx
    cases a with
    | request user =>
      obtain rfl | ⟨hx, _⟩ := mem_live_getOrCreate hx
      · exact ⟨acts, [], rfl, rfl⟩
      · exact (ih hx).concat _
    | purge => exact (ih (List.mem_filter.1 hx).1).concat _
    | _ => exact (ih hx).concat _

/-- What was handed out is not what the next new session gets. -/
theorem HandedOut.lt (h : s.HandedOut acts user id) {owner : Nat → String} (howned : s.Owned owner) :
    id < (s.after acts).storages.size := by
  obtain ⟨before, since, rfl, rfl⟩ := h
  obtain ⟨_, _, _, _, hanswers⟩ := howned.after (before ++ .request user :: since)
  exact (hanswers (user, _) (answer_of_request s before since user)).2

/-! ## The three agree -/

/-- Whatever has become of sessions before, a look-up of a user finds a storage exactly if it was handed
out to this user and a request would be answered with it now. A purge drops the sessions of the users that
a look-up does not find and no others, counts them, and leaves the others with their times and in their
order, so that every look-up afterwards is answered as before. Looking up changes nothing. -/
theorem lookups_agree (capacity maxIdle : Nat) (now : UInt64) (acts : List Act) :
    let s := (start capacity maxIdle now).after acts
    (∀ user id, s.get? user = some id ↔
      (start capacity maxIdle now).HandedOut acts user id ∧ (s.getOrCreate user).1 = id) ∧
    s.purge.2 = { s with live := s.live.filter fun x => (s.get? x.user).isSome } ∧
    s.users.Nodup ∧ s.purge.1 = (s.users.filter fun user => (s.get? user).isNone).length ∧
    (∀ user, s.purge.2.get? user = s.get? user) ∧
    ∀ user, s.act (.peek user) = s := by
  intro s
  have hd : s.Distinct := (Distinct.start capacity maxIdle now).after acts
  refine ⟨fun user id => ⟨fun hfound => ?_, ?_⟩, hd.purge_eq, hd.users, hd.purge_count, hd.get?_purge,
    fun _ => rfl⟩
  · obtain ⟨session, hlive, rfl, _, rfl⟩ := hd.get?_eq_some_iff.1 hfound
    exact ⟨handedOut_of_live rfl hlive, by rw [getOrCreate_eq_get?, hfound, Option.getD_some]⟩
  · rintro ⟨hout, hid⟩
    have hlt : id < s.storages.size := hout.lt (Owned.start capacity maxIdle now fun _ => "")
    rw [getOrCreate_eq_get?] at hid
    cases hfound : s.get? user with
    | none =>
      rw [hfound, Option.getD_none] at hid
      omega
    | some found =>
      rw [hfound, Option.getD_some] at hid
      rw [hid]

-- A session is found and kept to the last millisecond of its time, and until then no purge drops it.
example :
    let s := (start 2 300000 0).after [.request "alice", .advance 200 0, .request "bob", .advance 100 0]
    let late := s.act (.advance 0 1000000)
    s.get? "alice" = some 0 ∧ (s.getOrCreate "alice").1 = 0 ∧ s.purge.1 = 0 ∧
      late.get? "alice" = none ∧ (late.getOrCreate "alice").1 = 2 ∧ late.purge.1 = 1 ∧
      late.purge.2.users = ["bob"] := by
  decide

end WikiMount.Sessions
