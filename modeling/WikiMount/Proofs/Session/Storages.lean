import WikiMount.Session

/-!
# What sessions do to storages

Opening a session hands out an empty storage, which reads like the number it had before it was handed
out. So opening, using and dropping sessions changes no storage, and only `setStorage` does. There is room
for at least one session, so the session of the latest request is kept, and while the clock stands still it
leads to the same storage again.
-/

namespace WikiMount.Sessions

/-- A storage that has just been handed out is empty, like one that does not exist. -/
theorem storage_newStorage (s : Sessions) (id : Nat) : s.newStorage.2.storage id = s.storage id := by
  simp only [storage, newStorage, Array.getElem?_push]
  split
  next h =>
    subst h
    simp
  · rfl

theorem storage_getOrCreate (s : Sessions) (user : String) (id : Nat) :
    (s.getOrCreate user).2.storage id = s.storage id := by
  simp only [getOrCreate]
  split
  · split
    · rfl
    · exact storage_newStorage s id
  · exact storage_newStorage s id

/-- A storage is replaced if it has been handed out. -/
theorem storage_setStorage (s : Sessions) (id other : Nat) (files : Scratch) :
    (s.setStorage id files).storage other =
      if id = other ∧ other < s.storages.size then files else s.storage other := by
  simp only [setStorage, storage, Array.getElem?_modify]
  by_cases hid : id = other
  · by_cases hlt : other < s.storages.size
    · simp [hid, hlt]
    · simp [hid, hlt]
  · simp [hid]

theorem storage_setStorage_self (s : Sessions) (id other : Nat) :
    (s.setStorage id (s.storage id)).storage other = s.storage other := by
  rw [storage_setStorage]
  split
  next h => rw [h.1]
  · rfl

/-! ## Sessions -/

/-- There is room for a session, and the storages of all sessions have been handed out. -/
structure Sound (s : Sessions) : Prop where
  room : 1 ≤ s.capacity
  handedOut : ∀ session ∈ s.live, session.storage < s.storages.size

variable {s : Sessions} {session : Session} {user : String}

theorem Sound.ofConfig (c : Config) : (Sessions.ofConfig c).Sound where
  room := Nat.le_max_left 1 c.sessionCapacity
  handedOut _ h := by cases h

theorem Sound.use (h : s.Sound) (hlt : session.storage < s.storages.size) : (s.use session).Sound := by
  refine ⟨h.room, fun other hother => ?_⟩
  rcases List.mem_cons.1 (List.mem_of_mem_take hother) with rfl | hother
  · exact hlt
  · exact h.handedOut other (List.mem_filter.1 hother).1

theorem Sound.newStorage (h : s.Sound) : s.newStorage.2.Sound := by
  refine ⟨h.room, fun other hother => ?_⟩
  have hlt := h.handedOut other hother
  simp only [Sessions.newStorage, Array.size_push]
  omega

theorem Sound.setStorage (h : s.Sound) (id : Nat) (files : Scratch) : (s.setStorage id files).Sound := by
  refine ⟨h.room, fun other hother => ?_⟩
  simpa only [Sessions.setStorage, Array.size_modify] using h.handedOut other hother

theorem Sound.advance (h : s.Sound) (seconds nanoseconds : Nat) :
    (s.advance seconds nanoseconds).Sound := ⟨h.room, h.handedOut⟩

theorem Sound.purge (h : s.Sound) : s.purge.2.Sound :=
  ⟨h.room, fun other hother => h.handedOut other (List.mem_filter.1 hother).1⟩

/-- What is handed to a user is the storage of a session of that user, which has become the most recently
used one. -/
def HandsOut (s : Sessions) (user : String) (result : Nat × Sessions) : Prop :=
  ∃ (opened : Sessions) (session : Session), session.user = user ∧ session.lastAccess = s.now ∧
    result = (session.storage, opened.use session) ∧ opened.now = s.now ∧
      (s.Sound → opened.Sound ∧ session.storage < opened.storages.size)

theorem handsOut_openNew (s : Sessions) (user : String) : s.HandsOut user (s.openNew user) := by
  refine ⟨s.newStorage.2, ⟨user, s.storages.size, s.now⟩, rfl, rfl, rfl, rfl,
    fun h => ⟨h.newStorage, ?_⟩⟩
  simp [newStorage]

theorem handsOut_getOrCreate (s : Sessions) (user : String) :
    s.HandsOut user (s.getOrCreate user) := by
  simp only [getOrCreate]
  split
  next session hfound =>
    split
    · have huser : session.user = user := by simpa using List.find?_some hfound
      exact ⟨s, { session with lastAccess := s.now }, huser, rfl, rfl, rfl,
        fun h => ⟨h, h.handedOut session (List.mem_of_find?_eq_some hfound)⟩⟩
    · exact s.handsOut_openNew user
  · exact s.handsOut_openNew user

theorem Sound.getOrCreate (h : s.Sound) (user : String) : (s.getOrCreate user).2.Sound := by
  obtain ⟨opened, session, _, _, heq, _, hopened⟩ := s.handsOut_getOrCreate user
  obtain ⟨hsound, hlt⟩ := hopened h
  rw [heq]
  exact hsound.use hlt

theorem Sound.storage_lt (h : s.Sound) (user : String) :
    (s.getOrCreate user).1 < (s.getOrCreate user).2.storages.size := by
  obtain ⟨opened, session, _, _, heq, _, hopened⟩ := s.handsOut_getOrCreate user
  rw [heq]
  exact (hopened h).2

/-- While the clock stands still a user keeps the storage. -/
theorem Sound.getOrCreate_again (h : s.Sound) (user : String) (id : Nat) (files : Scratch) :
    (((s.getOrCreate user).2.setStorage id files).getOrCreate user).1 = (s.getOrCreate user).1 := by
  obtain ⟨opened, session, huser, hlast, heq, hnow, hopened⟩ := s.handsOut_getOrCreate user
  obtain ⟨room, hroom⟩ := Nat.exists_eq_add_of_le (hopened h).1.room
  have hfound : ((opened.use session).setStorage id files).session? user = some session := by
    simp [session?, Sessions.setStorage, Sessions.use, hroom, Nat.add_comm 1, huser]
  have hinstant : opened.now.toNat - session.lastAccess.toNat = 0 := by rw [hlast, hnow, Nat.sub_self]
  rw [heq, Sessions.getOrCreate, hfound]
  simp [Sessions.setStorage, Sessions.use, hinstant]

end WikiMount.Sessions
