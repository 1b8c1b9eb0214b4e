import Licq.Icq.Chat.Frames

/-!
# Icq/Chat/KickVote — how a vote about kicking somebody ends

`SendKick` starts a vote, and each `CHAT_KICKxYES` or `CHAT_KICKxNO` that arrives is counted by
`castVote`.  The vote is over when one side has more than half of `nNumUsers` votes, or when as many
votes as that have been counted (`verdict`).

Who starts the vote counts as a yes and the user to be kicked as a no, but `nNumUsers` is the number
of the connected users, without the one who counts: one voter less than there are.  So the last vote
is not waited for, and the **main result** `votesFairly_iff` says what remains of the majority: only
the first `nNumUsers - 2` votes that arrive matter.
-/

open Text Wire

namespace Licq

open List

/-! ## Counting -/

/-- What ends the voting, after a vote for this side: a majority, or as many votes as users. -/
def verdict (nNumUsers : ℕ) (yes : Bool) (nYes nNo : ℕ) : Option Bool :=
  if (if yes then nYes else nNo) = nNumUsers / 2 + 1 then some yes
  else if nYes + nNo = nNumUsers then some false
  else none

variable {N nYes nNo nUin : ℕ} {c : Chat}

theorem verdict_eq_none_iff {yes : Bool} : verdict N yes nYes nNo = none ↔
    (if yes then nYes else nNo) ≠ N / 2 + 1 ∧ nYes + nNo ≠ N := by
  rw [verdict]
  split_ifs with hmost hall hall
  all_goals simp [*]

/-- The verdict that votes one after the other lead to. -/
def tally (nNumUsers : ℕ) : ℕ → ℕ → List Bool → Option Bool
  | _, _, [] => none
  | nYes, nNo, yes :: votes =>
    let nYes := if yes then nYes + 1 else nYes
    let nNo := if yes then nNo else nNo + 1
    (verdict nNumUsers yes nYes nNo).or (tally nNumUsers nYes nNo votes)

/-- **Which votes matter**: those until as many have been counted as there are users. -/
theorem tally_eq {votes : List Bool} (hyes : nYes < N / 2 + 1)
    (hno : nNo < N / 2 + 1) (hlt : nYes + nNo < N) (hlen : N - (nYes + nNo) ≤ votes.length) :
    tally N nYes nNo votes
      = some (decide (N / 2 + 1 ≤ nYes + (votes.take (N - (nYes + nNo))).count true)) := by
  induction votes generalizing nYes nNo with
  | nil =>
    rw [length_nil] at hlen
    omega
  | cons yes votes ih =>
    obtain ⟨k, hk⟩ : ∃ k, N - (nYes + nNo) = k + 1 := ⟨N - (nYes + nNo) - 1, by omega⟩
    rw [hk, length_cons] at hlen
    rw [hk, take_succ_cons]
    have hcount : ((votes.take k).count true) ≤ k :=
      (count_le_length).trans (by rw [length_take]; exact Nat.min_le_left _ _)
    cases yes with
    | true =>
      simp only [tally, verdict, if_true, count_cons_self]
      by_cases hmajority : nYes + 1 = N / 2 + 1
      · rw [if_pos hmajority, decide_eq_true (by omega)]
        rfl
      · rw [if_neg hmajority]
        by_cases hall : nYes + 1 + nNo = N
        · rw [if_pos hall, decide_eq_false (by omega)]
          rfl
        · have hk' : N - (nYes + 1 + nNo) = k := by omega
          rw [if_neg hall, Option.none_or, ih (by omega) hno (by omega) (by omega), hk']
          refine congrArg some (decide_eq_decide.mpr ?_)
          omega
    | false =>
      have hcons : (false :: votes.take k).count true = (votes.take k).count true :=
        count_cons_of_ne (by decide)
      simp only [tally, verdict, Bool.false_eq_true, if_false, hcons]
      by_cases hmajority : nNo + 1 = N / 2 + 1
      · rw [if_pos hmajority, decide_eq_false (by omega)]
        rfl
      · rw [if_neg hmajority]
        by_cases hall : nYes + (nNo + 1) = N
        · rw [if_pos hall, decide_eq_false (by omega)]
          rfl
        · have hk' : N - (nYes + (nNo + 1)) = k := by omega
          rw [if_neg hall, Option.none_or, ih hyes (by omega) (by omega) (by omega), hk']

/-- **The votes of a whole voting.** -/
theorem tally_start {votes : List Bool} (hN : 2 ≤ N) (hlen : N - 1 ≤ votes.length) :
    tally N 1 1 votes
      = some (decide (N / 2 ≤ (votes.take (max 1 (N - 2))).count true)) := by
  rcases Nat.lt_or_ge 2 N with hlt | hle
  · have hmax : max 1 (N - 2) = N - (1 + 1) := by omega
    rw [tally_eq (by omega) (by omega) hlt (by omega), hmax]
    refine congrArg some (decide_eq_decide.mpr ?_)
    omega
  · obtain rfl : N = 2 := by omega
    obtain ⟨yes, votes, rfl⟩ := exists_cons_of_length_pos (show 0 < votes.length by omega)
    cases yes with
    | true => rfl
    | false => rfl

/-! ## The votes of a chat -/

/-- `SendKick`, for a user by its number. -/
def Chat.sendKick (c : Chat) (nUin : ℕ) : Chat × List ChatOutput :=
  ({ c with voteInfo := c.voteInfo ++ [⟨nUin, c.chatUsers.length % 2 ^ 16, 1, 1⟩] },
    [.send .kick (bytesLE 4 nUin) (c.userIdOf nUin) true])

/-- A vote, and the peer that sends it. -/
structure KickVote where
  u : ChatUser
  yes : Bool

/-- A vote arrives, with the number of the user as `SendVoteYes` and `SendVoteNo` send it. -/
def Chat.receiveVote (c : Chat) (nUin : ℕ) (v : KickVote) : Chat :=
  (({ c with u := v.u } : Chat).commandEffect (some (if v.yes then .kickYes else .kickNo))
    (bytesLE 4 nUin)).1

/-- The votes arrive in this order. -/
def Chat.receiveVotes (c : Chat) (nUin : ℕ) (votes : List KickVote) : Chat :=
  votes.foldl (fun c v => c.receiveVote nUin v) c

/-- The number of a user after it has been sent and received: it is cut to 32 bits, and their sign is
extended. -/
def receivedUin (nUin : ℕ) : ℕ :=
  if nUin % 2 ^ 32 < 2 ^ 31 then nUin % 2 ^ 32 else nUin % 2 ^ 32 + (2 ^ 64 - 2 ^ 32)

theorem receiveVote_eq (c : Chat) (nUin : ℕ) (v : KickVote) : c.receiveVote nUin v
    = ((({ c with u := v.u } : Chat).castVote v.yes (receivedUin nUin)).getD
        ({ c with u := v.u }, [])).1 := by
  have hvalue := valueLE_bytesLE 4 nUin
  have hlong : longLE (UInt8.ofNat nUin) (UInt8.ofNat (nUin / 256)) (UInt8.ofNat (nUin / 256 / 256))
      (UInt8.ofNat (nUin / 256 / 256 / 256)) = receivedUin nUin := by
    rw [longLE_eq, receivedUin]
    simp only [bytesLE] at hvalue
    rw [hvalue]
    rfl
  rw [Chat.receiveVote, ← hlong]
  cases v.yes <;> rfl

/-- The chat while a voting about the user is the last one on the list. -/
def Chat.IsVoting (c : Chat) (old : List VoteInfo) (vote : VoteInfo) : Prop :=
  c.voteInfo = old ++ [vote] ∧ ∀ v ∈ old, v.nUin ≠ vote.nUin

/-- **What a vote does to a voting.** -/
theorem castVote_isVoting {c : Chat} {old : List VoteInfo} {nUin N nYes nNo : ℕ} {yes : Bool}
    (h : c.IsVoting old ⟨nUin, N, nYes, nNo⟩) (hN : N < 2 ^ 16) (hyes : nYes + 1 < 2 ^ 16)
    (hno : nNo + 1 < 2 ^ 16) : ∃ outputs,
    let nYes := if yes then nYes + 1 else nYes
    let nNo := if yes then nNo else nNo + 1
    c.castVote yes nUin = some
      (match verdict N yes nYes nNo with
        | some bPassed =>
          (({ c with voteInfo := old } : Chat).finishKickVote ⟨nUin, N, nYes, nNo⟩ bPassed).1
        | none => { c with voteInfo := old ++ [⟨nUin, N, nYes, nNo⟩] }, outputs) := by
  obtain ⟨hvotes, hold⟩ := h
  have hne : ∀ v ∈ old, (v.nUin != nUin) = true := fun v hv => by simpa using hold v hv
  have hself : ((⟨nUin, N, nYes, nNo⟩ : VoteInfo).nUin != nUin) = false := by simp
  have hbefore : c.voteInfo.takeWhile (·.nUin != nUin) = old := by
    rw [hvotes, takeWhile_append_of_pos hne, takeWhile_cons_of_neg (by simp),
      append_nil]
  have hafter : c.voteInfo.dropWhile (·.nUin != nUin) = [⟨nUin, N, nYes, nNo⟩] := by
    rw [hvotes, dropWhile_append_of_pos hne, dropWhile_cons_of_neg (by simp)]
  have hmajority : (N / 2 + 1) % 2 ^ 16 = N / 2 + 1 := by omega
  have hyes' : (nYes + 1) % 2 ^ 16 = nYes + 1 := Nat.mod_eq_of_lt hyes
  have hno' : (nNo + 1) % 2 ^ 16 = nNo + 1 := Nat.mod_eq_of_lt hno
  cases yes with
  | true =>
    simp only [Chat.castVote, hbefore, hafter, hmajority, hyes', if_true, append_nil, verdict]
    by_cases hmost : nYes + 1 = N / 2 + 1
    · simp only [if_pos hmost]
      exact ⟨_, rfl⟩
    · by_cases hall : nYes + 1 + nNo = N
      · simp only [if_neg hmost, if_pos hall]
        exact ⟨_, rfl⟩
      · simp only [if_neg hmost, if_neg hall]
        exact ⟨_, rfl⟩
  | false =>
    simp only [Chat.castVote, hbefore, hafter, hmajority, hno', Bool.false_eq_true, if_false,
      append_nil, verdict]
    by_cases hmost : nNo + 1 = N / 2 + 1
    · simp only [if_pos hmost]
      exact ⟨_, rfl⟩
    · by_cases hall : nYes + (nNo + 1) = N
      · simp only [if_neg hmost, if_pos hall]
        exact ⟨_, rfl⟩
      · simp only [if_neg hmost, if_neg hall]
        exact ⟨_, rfl⟩

/-- Who is in the chat when a voting is over. -/
theorem finishKickVote_chatUsers (c : Chat) (vote : VoteInfo) (bPassed : Bool) :
    (c.finishKickVote vote bPassed).1.chatUsers
      = if bPassed then c.chatUsers.erase (c.userIdOf vote.nUin) else c.chatUsers := by
  rw [Chat.finishKickVote]
  split_ifs with hmem hpassed hpassed
  · rfl
  · rfl
  · exact (erase_of_not_mem hmem).symm
  · rfl

/-! ## A voting from its start to its end -/

/-- A vote about nobody that is voted about changes nothing but the peer. -/
theorem receiveVote_of_unknown
    (h : receivedUin nUin ∉ c.voteInfo.map VoteInfo.nUin) (v : KickVote) :
    c.receiveVote nUin v = { c with u := v.u } := by
  have hnone := (@castVote_eq_none_iff { c with u := v.u } v.yes (receivedUin nUin)).mpr h
  rw [receiveVote_eq, hnone]
  rfl

theorem receiveVotes_of_unknown (huin : receivedUin nUin = nUin)
    (h : nUin ∉ c.voteInfo.map VoteInfo.nUin) (votes : List KickVote) :
    (c.receiveVotes nUin votes).voteInfo = c.voteInfo ∧
      (c.receiveVotes nUin votes).chatUsers = c.chatUsers := by
  induction votes generalizing c with
  | nil => exact ⟨rfl, rfl⟩
  | cons v votes ih =>
    have hstep := receiveVote_of_unknown (huin.symm ▸ h) v
    rw [Chat.receiveVotes, foldl_cons, hstep, ← Chat.receiveVotes]
    exact @ih { c with u := v.u } h

/-- **The votes, counted.**  As long as there is no verdict the voting goes on; a verdict ends it, and
the votes after it change nothing. -/
theorem receiveVotes_tally {old : List VoteInfo}
    (huin : receivedUin nUin = nUin) (h : c.IsVoting old ⟨nUin, N, nYes, nNo⟩) (hN : N < 2 ^ 16)
    (hcount : nYes + nNo < N ∨ nYes = N / 2 ∧ nNo = N / 2) (votes : List KickVote) :
    match tally N nYes nNo (votes.map KickVote.yes) with
    | some bPassed =>
      (c.receiveVotes nUin votes).voteInfo = old ∧
        (c.receiveVotes nUin votes).chatUsers
          = if bPassed then c.chatUsers.erase (c.userIdOf nUin) else c.chatUsers
    | none => nUin ∈ (c.receiveVotes nUin votes).voteInfo.map VoteInfo.nUin := by
  induction votes generalizing c nYes nNo with
  | nil =>
    simp only [map_nil, tally, Chat.receiveVotes, foldl_nil]
    rw [h.1, map_append]
    exact mem_append_right _ (mem_singleton.mpr rfl)
  | cons v votes ih =>
    obtain ⟨outputs, hcast⟩ := @castVote_isVoting { c with u := v.u } old nUin N nYes nNo v.yes h hN
      (by omega) (by omega)
    have hstep : c.receiveVotes nUin (v :: votes)
        = (c.receiveVote nUin v).receiveVotes nUin votes := rfl
    rw [map_cons, tally, hstep, receiveVote_eq, huin, hcast]
    simp only [Option.getD_some]
    cases hverdict : verdict N v.yes (if v.yes then nYes + 1 else nYes)
        (if v.yes then nNo else nNo + 1) with
    | some bPassed =>
      have hfinish := finishKickVote_spec ({ c with u := v.u, voteInfo := old } : Chat)
        ⟨nUin, N, if v.yes then nYes + 1 else nYes, if v.yes then nNo else nNo + 1⟩ bPassed
      have hgone : nUin ∉ old.map VoteInfo.nUin := by
        intro hmem
        obtain ⟨w, hw, hwuin⟩ := mem_map.mp hmem
        exact h.2 w hw hwuin
      simp only [Option.some_or]
      obtain ⟨hvotes, husers⟩ := receiveVotes_of_unknown huin (by rw [hfinish.1]; exact hgone) votes
      exact ⟨hvotes.trans hfinish.1, husers.trans (finishKickVote_chatUsers _ _ _)⟩
    | none =>
      simp only [Option.none_or]
      have hnext : ({ c with
          u := v.u
          voteInfo := old ++ [⟨nUin, N, if v.yes then nYes + 1 else nYes,
            if v.yes then nNo else nNo + 1⟩] } : Chat).IsVoting old
            ⟨nUin, N, if v.yes then nYes + 1 else nYes, if v.yes then nNo else nNo + 1⟩ :=
        ⟨rfl, h.2⟩
      obtain ⟨hmost, hall⟩ := verdict_eq_none_iff.mp hverdict
      refine ih hnext ?_
      cases hv : v.yes with
      | true =>
        simp only [hv, if_true] at hmost hall ⊢
        omega
      | false =>
        simp only [hv, Bool.false_eq_true, if_false] at hmost hall ⊢
        omega

/-- Votes in which the number of the user does not arrive leave the voting as it is. -/
theorem mem_receiveVotes (huin : receivedUin nUin ≠ nUin)
    (votes : List KickVote) :
    nUin ∈ (c.receiveVotes nUin votes).voteInfo.map VoteInfo.nUin
      ↔ nUin ∈ c.voteInfo.map VoteInfo.nUin := by
  induction votes generalizing c with
  | nil => exact Iff.rfl
  | cons v votes ih =>
    refine (@ih (c.receiveVote nUin v)).trans ?_
    rw [receiveVote_eq]
    cases hcast : ({ c with u := v.u } : Chat).castVote v.yes (receivedUin nUin) with
    | none => exact Iff.rfl
    | some d =>
      have hfilter := (voteCast_of_castVote hcast).filter_eq huin
      have hmem : ∀ l : List VoteInfo,
          nUin ∈ l.map VoteInfo.nUin ↔ l.filter (·.nUin == nUin) ≠ [] := by
        intro l
        rw [mem_map, ne_eq, filter_eq_nil_iff]
        push Not
        simp only [beq_iff_eq]
      rw [Option.getD_some, hmem, hmem, hfilter]

/-! ## The main result -/

/-- The first vote of a user. -/
def ballot (votes : List KickVote) (id : UserId) : Option Bool :=
  (votes.find? fun v => v.u.userId = id).map KickVote.yes

/-- Who is for it: the one who started it, and the connected users whose first vote is a yes.  The
user to be kicked is against it. -/
def Chat.yesBallots (c : Chat) (nUin : ℕ) (votes : List KickVote) : ℕ :=
  1 + (c.chatUsers.erase (c.userIdOf nUin)).countP fun id => ballot votes id = some true

/-- More than half of the participants are for it. -/
def Chat.Majority (c : Chat) (nUin : ℕ) (votes : List KickVote) : Prop :=
  c.chatUsers.length + 1 < 2 * c.yesBallots nUin votes

instance (c : Chat) (nUin : ℕ) (votes : List KickVote) : Decidable (c.Majority nUin votes) :=
  inferInstanceAs (Decidable (_ < _))

/-- The votes of a voting that is started about a user of the chat: they come from the other users,
each of them votes at least once, and no other voting about the user is under way. -/
structure Chat.Election (c : Chat) (nUin : ℕ) (votes : List KickVote) : Prop where
  nodup : c.chatUsers.Nodup
  /-- `ConnectedUsers` returns an `unsigned short`. -/
  size_lt : c.chatUsers.length < 2 ^ 16
  target : c.userIdOf nUin ∈ c.chatUsers
  fresh : nUin ∉ c.voteInfo.map VoteInfo.nUin
  voters : ∀ v ∈ votes, v.u.userId ∈ c.chatUsers.erase (c.userIdOf nUin)
  complete : ∀ id ∈ c.chatUsers.erase (c.userIdOf nUin), ∃ v ∈ votes, v.u.userId = id

/-- The voting comes to an end, and the user is kicked exactly if a majority is for it. -/
def Chat.VotesFairly (c : Chat) (nUin : ℕ) (votes : List KickVote) : Prop :=
  let d := (c.sendKick nUin).1.receiveVotes nUin votes
  nUin ∉ d.voteInfo.map VoteInfo.nUin ∧
    (c.userIdOf nUin ∉ d.chatUsers ↔ c.Majority nUin votes)

/-- Every voter votes, so that there are at least as many votes as voters. -/
theorem Chat.Election.length_le {votes : List KickVote}
    (h : c.Election nUin votes) : c.chatUsers.length - 1 ≤ votes.length := by
  have hsub : c.chatUsers.erase (c.userIdOf nUin) ⊆ votes.map (·.u.userId) := by
    intro id hid
    obtain ⟨v, hv, rfl⟩ := h.complete id hid
    exact mem_map.mpr ⟨v, hv, rfl⟩
  have hle := ((h.nodup.erase _).subperm hsub).length_le
  rwa [length_erase_of_mem h.target, length_map] at hle

/-- **How a voting ends.**  The number of the user has to arrive, there has to be somebody else, and
half of the users among the first votes decide. -/
theorem votesFairly_iff (c : Chat) (nUin : ℕ) (votes : List KickVote) (h : c.Election nUin votes) :
    c.VotesFairly nUin votes ↔ receivedUin nUin = nUin ∧ 2 ≤ c.chatUsers.length ∧
      (c.chatUsers.length / 2
          ≤ (votes.take (max 1 (c.chatUsers.length - 2))).countP (fun v => v.yes) ↔
        c.Majority nUin votes) := by
  have hfresh : ∀ v ∈ c.voteInfo, v.nUin ≠ nUin := fun v hv heq =>
    h.fresh (List.mem_map.mpr ⟨v, hv, heq⟩)
  have hmod : c.chatUsers.length % 2 ^ 16 = c.chatUsers.length := Nat.mod_eq_of_lt h.size_lt
  have hvoting : (c.sendKick nUin).1.IsVoting c.voteInfo ⟨nUin, c.chatUsers.length, 1, 1⟩ := by
    rw [Chat.sendKick, hmod]
    exact ⟨rfl, hfresh⟩
  have hstarted : nUin ∈ (c.sendKick nUin).1.voteInfo.map VoteInfo.nUin := by
    rw [hvoting.1, List.map_append]
    exact List.mem_append_right _ (List.mem_singleton.mpr rfl)
  by_cases huin : receivedUin nUin = nUin
  · by_cases htwo : 2 ≤ c.chatUsers.length
    · have hrun := receiveVotes_tally huin hvoting h.size_lt (by omega) votes
      rw [tally_start htwo (by rw [List.length_map]; exact h.length_le)] at hrun
      obtain ⟨hvotes, husers⟩ := hrun
      have hcount : ((votes.map KickVote.yes).take (max 1 (c.chatUsers.length - 2))).count true
          = (votes.take (max 1 (c.chatUsers.length - 2))).countP (fun v => v.yes) := by
        rw [← List.map_take, List.count, List.countP_map]
        refine List.countP_congr fun v _ => ?_
        simp
      have hkicked : c.userIdOf nUin ∉ ((c.sendKick nUin).1.receiveVotes nUin votes).chatUsers ↔
          c.chatUsers.length / 2
            ≤ (votes.take (max 1 (c.chatUsers.length - 2))).countP (fun v => v.yes) := by
        simp only [husers, hcount, decide_eq_true_eq]
        split_ifs with hmost
        · exact ⟨fun _ => hmost, fun _ => h.nodup.not_mem_erase⟩
        · exact ⟨fun hgone => absurd h.target hgone, fun hle => absurd hle hmost⟩
      rw [Chat.VotesFairly, hvotes, hkicked]
      exact ⟨fun hfair => ⟨huin, htwo, hfair.2⟩, fun hok => ⟨h.fresh, hok.2.2⟩⟩
    · have hpos := List.length_pos_of_mem h.target
      have hnone : votes = [] := by
        refine List.eq_nil_iff_forall_not_mem.mpr fun v hv => ?_
        have hvoter := List.length_pos_of_mem (h.voters v hv)
        rw [List.length_erase_of_mem h.target] at hvoter
        omega
      subst hnone
      exact iff_of_false (fun hfair => hfair.1 hstarted) fun hok => htwo hok.2.1
  · exact iff_of_false (fun hfair => hfair.1 ((mem_receiveVotes huin votes).mpr hstarted))
      fun hok => huin hok.1

/-! ## Three users -/

/-- What is known of a user that has said nothing yet. -/
def silentUser (userId : UserId) : ChatUser where
  userId := userId
  nToKick := 0
  colorFore := (0, 0, 0)
  colorBack := (255, 255, 255)
  fontFamily := []
  fontEncoding := 0
  fontStyle := 0
  fontSize := 12
  fontFace := 0
  focus := false
  sleep := false
  linebuf := []

def chatOwner : UserId := .owner icqPpid (decimal 100)

/-- A chat with the users 101, 102 and 103. -/
def threeUsers : Chat where
  myUserId := chatOwner
  u := silentUser (.user chatOwner (decimal 101))
  chatUsers := [101, 102, 103].map fun n => .user chatOwner (decimal n)
  voteInfo := []

/-- The vote of a user. -/
def voteOf (n : ℕ) (yes : Bool) : KickVote := ⟨silentUser (.user chatOwner (decimal n)), yes⟩

theorem election_threeUsers (yes yes' : Bool) :
    threeUsers.Election 101 [voteOf 102 yes, voteOf 103 yes'] where
  nodup := by decide
  size_lt := by decide
  target := by decide
  fresh := by decide
  voters := by cases yes <;> cases yes' <;> decide
  complete := by cases yes <;> cases yes' <;> decide

/-- When both are against it, the user stays. -/
theorem votesFairly_threeUsers : threeUsers.VotesFairly 101 [voteOf 102 false, voteOf 103 false] :=
  (votesFairly_iff threeUsers 101 _ (election_threeUsers false false)).mpr
    ⟨by decide, by decide, by decide⟩

/-- With two votes of four the user is kicked if the yes comes first, and stays if the no does. -/
theorem not_votesFairly_threeUsers :
    threeUsers.Election 101 [voteOf 102 true, voteOf 103 false] ∧
      threeUsers.Election 101 [voteOf 103 false, voteOf 102 true] ∧
      ¬threeUsers.VotesFairly 101 [voteOf 102 true, voteOf 103 false] ∧
      threeUsers.userIdOf 101 ∉ ((threeUsers.sendKick 101).1.receiveVotes 101
        [voteOf 102 true, voteOf 103 false]).chatUsers ∧
      threeUsers.userIdOf 101 ∈ ((threeUsers.sendKick 101).1.receiveVotes 101
        [voteOf 103 false, voteOf 102 true]).chatUsers := by
  have hkicked : threeUsers.userIdOf 101 ∉ ((threeUsers.sendKick 101).1.receiveVotes 101
      [voteOf 102 true, voteOf 103 false]).chatUsers := by decide
  have hfew : ¬threeUsers.Majority 101 [voteOf 102 true, voteOf 103 false] := by decide
  refine ⟨election_threeUsers true false, ?_, fun hfair => hfew (hfair.2.mp hkicked), hkicked,
    by decide⟩
  exact ⟨by decide, by decide, by decide, by decide, by decide, by decide⟩

end Licq
