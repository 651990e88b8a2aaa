import LinuxChat.Logic.Builders
import LinuxChat.Model.Chat

/-!
# What a client reads out of its messages

`noticeOf` on what the builders build, and the roster of a client after one
more message. The name in a `UserAdd` or `UserRemove` is the stored name cut
to its stored length; `StoredName` says that nothing is cut.
-/

namespace LinuxChat

open CMem

theorem noticeOf_userAdded {now : UInt64} {name : List UInt8} {size : Nat} {use : Bool}
    (h : 8 + size ≤ bodySize) :
    noticeOf (buildUserAdded .zero now name size use).msg =
      some (.added (cstr (name.take size))) := by
  have hlen : (buildUserAdded .zero now name size use).msg.header.length.toNat =
      8 + (cstr (name.take size)).length := (lengthOk_userAdded h).1
  have hname : cstr ((buildUserAdded .zero now name size use).msg.body.bytes.drop 8) =
      cstr (name.take size) := by
    rw [drop_userAdded h, cstr_append_replicate_zero, cstr_strncpy]
  have htype : (buildUserAdded .zero now name size use).msg.header.type =
      MessageType.userAdd.code := rfl
  simp only [noticeOf, htype, if_true]
  rw [List.drop_take, cstr_take, hname, hlen, Nat.add_sub_cancel_left, List.take_length]

theorem noticeOf_userRemoved {m : CombinedMessage} {now : UInt64} {code : ClientDisconnectCode}
    {name : List UInt8} {size : Nat} (h : 9 + size ≤ bodySize) :
    noticeOf (buildUserRemoved m now code name size).msg =
      some (.removed (cstr (name.take size))) := by
  have hlen : (buildUserRemoved m now code name size).msg.header.length.toNat = 9 + size :=
    toNat_ofNat_length h
  have htype : (buildUserRemoved m now code name size).msg.header.type =
      MessageType.userRemove.code := rfl
  have hne : ¬ MessageType.userRemove.code = MessageType.userAdd.code := by decide
  simp only [noticeOf, htype, hne, if_true, if_false, hlen]
  have hdrop := @Buf.drop_write _ ((m.body.write 0 (timestamp now true)).write 8 [code.code]) 9
    (strncpy name size) (by simpa using h)
  rw [List.drop_take, Nat.add_sub_cancel_left]
  simp only [buildUserRemoved]
  rw [hdrop, List.take_left' (length_strncpy name size), cstr_strncpy]

theorem noticeOf_serverToClient (m : CombinedMessage) (now : UInt64) (msgLength : Nat)
    (name : List UInt8) (nameSize : Nat) :
    noticeOf (buildServerToClient m now msgLength name nameSize).msg = none := rfl

/-! ## One more message -/

variable {inbox : List CombinedMessage} {m : CombinedMessage} {k n : List UInt8}

theorem rosterOf_snoc (inbox : List CombinedMessage) (m : CombinedMessage) :
    rosterOf (inbox ++ [m]) = Notice.roster (inbox.filterMap noticeOf ++ (noticeOf m).toList) := by
  rw [rosterOf, List.filterMap_append]
  cases h : noticeOf m <;> simp [h]

theorem mem_rosterOf_added (hm : noticeOf m = some (.added k)) :
    n ∈ rosterOf (inbox ++ [m]) ↔ n = k ∨ n ∈ rosterOf inbox := by
  rw [rosterOf_snoc, hm]
  exact Notice.mem_roster_added

theorem mem_rosterOf_removed (hm : noticeOf m = some (.removed k)) :
    n ∈ rosterOf (inbox ++ [m]) ↔ n ≠ k ∧ n ∈ rosterOf inbox := by
  rw [rosterOf_snoc, hm]
  exact Notice.mem_roster_removed

theorem rosterOf_other (hm : noticeOf m = none) : rosterOf (inbox ++ [m]) = rosterOf inbox := by
  rw [rosterOf_snoc, hm, Option.toList_none, List.append_nil, rosterOf]

/-! ## Names in messages -/

/-- The stored length covers the stored name, and is that of a name if the user has logged in. -/
structure StoredName (u : User) : Prop where
  fits : u.nameLength ≤ netNameLen
  cut : cstr (u.name.bytes.take u.nameLength) = u.cname
  pos : u.loggedIn = true → u.nameLength ≠ 0

theorem storedName_fresh (thread sock : Nat) : StoredName (User.fresh thread sock) where
  fits := Nat.zero_le _
  cut := (User.cname_fresh thread sock).symm
  pos h := by cases h

theorem StoredName.logout {u : User} (hu : StoredName u) : StoredName u.logout where
  fits := hu.fits
  cut := hu.cut
  pos h := by cases h

/-- The first login of an entry. -/
theorem storedName_login {u : User} {name : List UInt8} {size : Nat}
    (hu : u.name = Buf.zero netNameLenPlus) (hpos : size ≠ 0) (hfit : size ≤ netNameLen) :
    StoredName (u.login name size) where
  fits := hfit
  cut := by
    have hplus : size ≤ netNameLenPlus := Nat.le_succ_of_le hfit
    rw [show (u.login name size).nameLength = size from rfl, User.cstr_take_login hplus,
      User.cname_login hplus (.inr ?_)]
    rw [hu, Buf.bytes_zero, List.drop_replicate, cstr_replicate_zero]
  pos _ := hpos

theorem StoredName.noticeOf_added {u : User} (hu : StoredName u) (now : UInt64) (use : Bool) :
    noticeOf (buildUserAdded .zero now u.name.bytes u.nameLength use).msg =
      some (.added u.cname) := by
  have hfit := hu.fits
  rw [noticeOf_userAdded (by unfold netNameLen at hfit; unfold bodySize; omega), hu.cut]

theorem StoredName.noticeOf_teardown {u : User} (hu : StoredName u) (now : UInt64)
    (m : CombinedMessage) (reason : ClientDisconnectCode) :
    noticeOf (teardownNotice now m reason u).msg = some (.removed u.cname) := by
  have hfit := hu.fits
  rw [teardownNotice, noticeOf_userRemoved (by unfold netNameLen at hfit; unfold bodySize; omega),
    hu.cut]

/-- What a newcomer adds to its roster: the names of the others who are logged in. -/
theorem mem_rosterOf_snapshot {l : UserList} {p : UserPtr} {now : UInt64}
    (hl : ∀ q v, l.get? q = some v → StoredName v) :
    n ∈ rosterOf (inbox ++ (snapshot now l p).map (·.msg)) ↔
      (∃ q v, l.get? q = some v ∧ v.loggedIn = true ∧ q ≠ p ∧ v.cname = n) ∨
        n ∈ rosterOf inbox := by
  have hnotices : ((snapshot now l p).map (·.msg)).filterMap noticeOf =
      ((l.loggedInUsers.filter fun e => e.1 ≠ p).map fun e => e.2.cname).map Notice.added := by
    rw [snapshot, List.map_map, List.map_map, List.filterMap_map, ← List.filterMap_eq_map]
    refine List.filterMap_congr fun e he => ?_
    obtain ⟨q, v⟩ := e
    have hv := (UserList.mem_loggedInUsers.mp (List.mem_of_mem_filter he)).1
    exact (hl q v hv).noticeOf_added now false
  rw [rosterOf, List.filterMap_append, hnotices, Notice.mem_roster_append_map, rosterOf]
  refine or_congr_left ?_
  simp only [List.mem_map, List.mem_filter, decide_eq_true_eq, Prod.exists,
    UserList.mem_loggedInUsers, and_assoc]

end LinuxChat
